import LightningDB.Parser.Literals

/-!
# The statements of a query text

`parse` from the text to the list of its statements: `parse_query` collects what stands between
semicolons, `parse_union_query` the arms of each UNION.  Below that, transaction control is told apart
from the other statements, whose syntax trees are left to a parameter (`AstBuilder`).
-/

namespace LightningDB

open Framework

/-- `TransactionAction`. -/
inductive TransactionAction where
  | begin
  | commit
  | rollback
deriving DecidableEq

/-- `Statement`. -/
inductive Statement (Stmt : Type) where
  | transaction (action : TransactionAction)
  | other (stmt : Stmt)
deriving DecidableEq

/-- All but transaction control. -/
def Statement.isOther {Stmt : Type} : Statement Stmt → Bool
  | .transaction _ => false
  | .other _ => true

/-- `UnionQuery`: a statement, and what it is united with. -/
inductive UnionQuery (S : Type) where
  | last (statement : S)
  | union (statement : S) (next : UnionQuery S) (isAll : Bool)
deriving DecidableEq

namespace UnionQuery

variable {S : Type}

/-- The first arm. -/
def statement : UnionQuery S → S
  | .last st => st
  | .union st _ _ => st

/-- `next_union.is_some()`. -/
def hasNext : UnionQuery S → Bool
  | .last _ => false
  | .union _ _ _ => true

/-- A condition on all arms. -/
def all (p : S → Bool) : UnionQuery S → Bool
  | .last st => p st
  | .union st next _ => p st && next.all p

lemma eq_last {u : UnionQuery S} (h : u.hasNext = false) : u = .last u.statement := by
  cases u with
  | last => rfl
  | union => cases h

end UnionQuery

/-- `Query`. -/
structure Query (S : Type) where
  unionQueries : List (UnionQuery S)
  isExplain : Bool
  isProfile : Bool
deriving DecidableEq

/-- What is left open about parsing: the fuel of the reader, the text of a pest error, and the
builder of the syntax tree of a statement, with the text of its errors. -/
structure AstBuilder (Stmt : Type) where
  fuel : ℕ
  pestError : List Char → String
  statement : Peg.Tree CypherRule → Except String Stmt

/-- The text of `ParserError::Internal`. -/
def internalParserError (msg : String) : String := "Internal parser error: " ++ msg

variable {Stmt : Type} (b : AstBuilder Stmt)

/-- `parse_statement`. -/
def parseStatement : Peg.Tree CypherRule → Except String (Statement Stmt)
  | .node _ _ (.node .transactionStatement _ [] :: _) =>
    .error (internalParserError "missing expected parser pair: pair")
  | .node _ _ (.node .transactionStatement _ (.node r _ _ :: _) :: _) =>
    .ok (.transaction
      (match r with
        | .beginTx => .begin
        | .commitTx => .commit
        | _ => .rollback))
  | tree => (b.statement tree).map .other

/-- The text of a node, in capitals. -/
def upperText (span : List Char) : List Char := span.map Char.toUpper

/-- The statements of a `union_query` and, between them, whether duplicates stay. -/
def collectArms (b : AstBuilder Stmt) :
    List (Peg.Tree CypherRule) → Except String (List (Statement Stmt) × List Bool)
  | [] => .ok ([], [])
  | .node .statement span children :: trees => do
    let st ← parseStatement b (.node .statement span children)
    let (sts, ops) ← collectArms b trees
    return (st :: sts, ops)
  | .node .unionOp span _ :: trees => do
    let (sts, ops) ← collectArms b trees
    return (sts, decide ("ALL".toList <:+: upperText span) :: ops)
  | _ :: trees => collectArms b trees

/-- The chain of arms; `none` where the source would index past the end of `ops`. -/
def chainArms {S : Type} : List S → List Bool → Option (UnionQuery S)
  | [], _ => none
  | [st], _ => some (.last st)
  | st :: sts, isAll :: ops => (chainArms sts ops).map (.union st · isAll)
  | _ :: _ :: _, [] => none

/-- `parse_union_query`. -/
def parseUnionQuery (trees : List (Peg.Tree CypherRule)) :
    Except String (UnionQuery (Statement Stmt)) := do
  let (sts, ops) ← collectArms b trees
  match chainArms sts ops with
  | some u => return u
  | none => throw (internalParserError "empty union query")

/-- `parse_query`. -/
def parseQuery (b : AstBuilder Stmt) :
    List (Peg.Tree CypherRule) → Except String (Query (Statement Stmt))
  | [] => .ok ⟨[], false, false⟩
  | .node .explainOp span _ :: trees => do
    let q ← parseQuery b trees
    return if upperText span = "PROFILE".toList then { q with isProfile := true }
      else { q with isExplain := true }
  | .node .unionQuery _ children :: trees => do
    let u ← parseUnionQuery b children
    let q ← parseQuery b trees
    return { q with unionQueries := u :: q.unionQueries }
  | _ :: trees => parseQuery b trees

/-- `parse`, with the error as `LightningError::Query` prints it. -/
def parse (text : List Char) : Except String (Query (Statement Stmt)) :=
  match preprocess text with
  | none => .error "panic"
  | some out =>
    match Peg.run cypher b.fuel false (.rule .query) out with
    | some (some (_, [.node _ _ children])) => parseQuery b children
    | some (some _) => .error (internalParserError "unexpected end of input")
    | _ => .error ("Pest error: " ++ b.pestError out)

end LightningDB
