import LightningDB.Framework.Peg
import Mathlib.Data.List.Forall2

/-!
# The Cypher grammar

`cypher.pest`, rule by rule.  What parsers downstream of it need is that a quote is only ever read
inside a string literal, or inside a comment: `cypher_confines`.
-/

namespace LightningDB

open Framework List

/-- The rules of `cypher.pest`. -/
inductive CypherRule where
  | whitespace | comment | query | explainOp | unionQuery | unionOp | statement
  | vacuumStatement | transactionStatement | checkpointStatement | beginTx | commitTx | rollbackTx
  | ddlStatement | createIndex | dropIndex | createConstraint | dropConstraint | alterTable
  | alterOperation | addColumn | dropColumn | renameTable | renameColumn | createNodeTable
  | createRelTable | dropTable | ifNotExists | ifExists | copyStatement | copyFrom | copyTo
  | copyOption | columnDef | dataType | listType | structType | primaryKeyDef | tableName
  | clause | optionalMatchClause | withClause | unwindClause | createClause | mergeClause
  | onCreateClause | onMatchClause | deleteClause | detachKw | setClause | setItem
  | propertyAssignment | mapAssignment | removeClause | matchClause | callClause | procedureName
  | yieldClause | yieldItem | pattern | shortestPathPattern | allShortestPathsPattern
  | nodePattern | relationshipChain | relationshipPattern | varLenBounds | range | leftArrow
  | rightArrow | labels | labelName | variable | properties | propertyItem | propertyKey
  | whereClause | returnClause | distinctLiteral | orderByClause | sortItem | asc | desc
  | skipClause | limitClause | star | projectionItems | expression | orExpr | xorExpr | andExpr
  | notExpr | orOp | xorOp | andOp | notOp | comparisonExpr | term | factor | unaryMinus | addOp
  | subOp | mulOp | divOp | modOp | stringPredicate | isNullCheck | inCheck | containsOp
  | startsWithOp | endsWithOp | comparisonOperator | atom | listQuantifier | allQ | anyQ | noneQ
  | singleQ | mapLiteral | castExpression | extractExpression | extractField | listSubscript
  | rangeOperator | parameter | existsSubquery | countSubquery | caseExpression | whenThenClause
  | elseClause | functionCall | propertyLookup | parenthesizedExpression | literal | listLiteral
  | stringLiteral | numberLiteral | booleanLiteral | nullLiteral | asOp | projectionItem
deriving DecidableEq

/-- Expressions of the grammar. -/
abbrev CypherPeg : Type := Peg CypherRule

namespace CypherPeg

/-- `"s"`. -/
def tok (s : String) : CypherPeg := .text s.toList

/-- `^"s"`. -/
def kw (s : String) : CypherPeg := .textCI s.toList

/-- `a ~ b ~ …`. -/
def seqs : List CypherPeg → CypherPeg
  | [] => .text []
  | [a] => a
  | a :: b :: as => .seq a (seqs (b :: as))

/-- `a | b | …`. -/
def alts : List CypherPeg → CypherPeg
  | [] => .not (.text [])
  | [a] => a
  | a :: b :: as => .alt a (alts (b :: as))

/-- `a ~ ("," ~ a)*`. -/
def commaList (a : CypherPeg) : CypherPeg := .seq a (.star (.seq (tok ",") a))

/-- `SOI`, which the only rule that uses it starts with. -/
def soi : CypherPeg := .text []

/-- `ASCII_ALPHA`, `ASCII_DIGIT`, `ASCII_ALPHANUMERIC` and `ANY`. -/
def asciiAlpha : CypherPeg := .char Char.isAlpha
def asciiDigit : CypherPeg := .char Char.isDigit
def asciiAlphanumeric : CypherPeg := .char Char.isAlphanum
def any : CypherPeg := .char fun _ => true

/-- `(ASCII_ALPHA | "_") ~ (ASCII_ALPHANUMERIC | "_")*`. -/
def identifier : CypherPeg :=
  .seq (.alt asciiAlpha (tok "_")) (.star (.alt asciiAlphanumeric (tok "_")))

/-- `ASCII_ALPHA ~ (ASCII_ALPHANUMERIC | "_")*`. -/
def plainIdentifier : CypherPeg := .seq asciiAlpha (.star (.alt asciiAlphanumeric (tok "_")))

/-- `a ~ !"_" ~ !ASCII_ALPHANUMERIC`. -/
def wordEnd (a : CypherPeg) : CypherPeg := seqs [a, .not (tok "_"), .not asciiAlphanumeric]

/-- `q ~ (!q ~ ANY)* ~ q`. -/
def quoted (q : String) : CypherPeg := seqs [tok q, .star (.seq (.not (tok q)) any), tok q]

/-- `k ~ "(" ~ variable ~ ^"IN" ~ expression ~ ^"WHERE" ~ expression ~ ")"`. -/
def quantifier (k : String) : CypherPeg :=
  seqs [kw k, tok "(", .rule .variable, kw "IN", .rule .expression, kw "WHERE", .rule .expression,
    tok ")"]

/-- `(skip_clause ~ limit_clause?) | (limit_clause ~ skip_clause?)`. -/
def skipLimit : CypherPeg :=
  .alt (.seq (.rule .skipClause) (.opt (.rule .limitClause)))
    (.seq (.rule .limitClause) (.opt (.rule .skipClause)))

/-- `"(" ~ copy_option ~ ("," ~ copy_option)* ~ ")"`. -/
def copyOptions : CypherPeg := seqs [tok "(", commaList (.rule .copyOption), tok ")"]

/-- `k ~ "{" ~ (match_clause ~ where_clause?)+ ~ "}"`. -/
def subquery (k : String) : CypherPeg :=
  seqs [kw k, tok "\x7b", .plus (.seq (.rule .matchClause) (.opt (.rule .whereClause))), tok "\x7d"]

end CypherPeg

open CypherPeg in
def CypherRule.body : CypherRule → CypherPeg
  | .whitespace => alts [tok " ", tok "\t", tok "\r", tok "\n"]
  | .comment => .seq (tok "//") (.star (.seq (.not (tok "\n")) any))
  | .query =>
      seqs [soi, .opt (.rule .explainOp), .rule .unionQuery,
        .star (.seq (tok ";") (.rule .unionQuery)), .eoi]
  | .explainOp => .alt (kw "EXPLAIN") (kw "PROFILE")
  | .unionQuery =>
      .seq (.rule .statement) (.star (.seq (.rule .unionOp) (.rule .statement)))
  | .unionOp => .seq (kw "UNION") (.opt (kw "ALL"))
  | .statement =>
      alts [.rule .transactionStatement, .rule .ddlStatement, .rule .checkpointStatement,
        .rule .vacuumStatement,
        .alt
          (.seq
            (.plus (alts [.rule .matchClause, .rule .optionalMatchClause, .rule .withClause,
              .rule .whereClause, .rule .unwindClause, .rule .createClause, .rule .mergeClause,
              .rule .deleteClause, .rule .setClause, .rule .removeClause, .rule .callClause]))
            (.opt (.rule .returnClause)))
          (.rule .returnClause)]
  | .vacuumStatement => kw "VACUUM"
  | .transactionStatement => alts [.rule .beginTx, .rule .commitTx, .rule .rollbackTx]
  | .checkpointStatement => kw "CHECKPOINT"
  | .beginTx => .seq (kw "BEGIN") (.opt (kw "TRANSACTION"))
  | .commitTx => .seq (kw "COMMIT") (.opt (kw "TRANSACTION"))
  | .rollbackTx => .seq (kw "ROLLBACK") (.opt (kw "TRANSACTION"))
  | .ddlStatement =>
      alts [.rule .createNodeTable, .rule .createRelTable, .rule .dropTable, .rule .alterTable,
        .rule .copyStatement, .rule .createConstraint, .rule .dropConstraint, .rule .createIndex,
        .rule .dropIndex]
  | .createIndex =>
      seqs [kw "CREATE", kw "INDEX", .rule .variable, kw "FOR", tok "(", .rule .variable, tok ":",
        .rule .labelName, tok ")", kw "ON", tok "(", .rule .variable, tok ".", .rule .variable,
        tok ")"]
  | .dropIndex => seqs [kw "DROP", kw "INDEX", .rule .variable]
  | .createConstraint =>
      seqs [kw "CREATE", kw "CONSTRAINT", .rule .variable, kw "FOR", tok "(", .rule .variable,
        tok ":", .rule .labelName, tok ")", kw "REQUIRE", .rule .variable, tok ".",
        .rule .variable, kw "IS", kw "UNIQUE"]
  | .dropConstraint => seqs [kw "DROP", kw "CONSTRAINT", .rule .variable]
  | .alterTable => seqs [kw "ALTER", kw "TABLE", .rule .tableName, .rule .alterOperation]
  | .alterOperation =>
      alts [.rule .addColumn, .rule .dropColumn, .rule .renameTable, .rule .renameColumn]
  | .addColumn => seqs [kw "ADD", .opt (kw "COLUMN"), .rule .columnDef]
  | .dropColumn => seqs [kw "DROP", .opt (kw "COLUMN"), .rule .variable]
  | .renameTable => seqs [kw "RENAME", kw "TO", .rule .tableName]
  | .renameColumn =>
      seqs [kw "RENAME", .opt (kw "COLUMN"), .rule .variable, kw "TO", .rule .variable]
  | .createNodeTable =>
      seqs [kw "CREATE", kw "NODE", kw "TABLE", .opt (.rule .ifNotExists), .rule .tableName,
        tok "(", .rule .columnDef, .star (.seq (tok ",") (.rule .columnDef)),
        .opt (.seq (tok ",") (.rule .primaryKeyDef)), tok ")"]
  | .createRelTable =>
      seqs [kw "CREATE", kw "REL", kw "TABLE", .opt (.rule .ifNotExists), .rule .tableName,
        tok "(", kw "FROM", .rule .tableName, kw "TO", .rule .tableName,
        .star (.seq (tok ",") (.rule .columnDef)), tok ")"]
  | .dropTable => seqs [kw "DROP", kw "TABLE", .opt (.rule .ifExists), .rule .tableName]
  | .ifNotExists => seqs [kw "IF", kw "NOT", kw "EXISTS"]
  | .ifExists => seqs [kw "IF", kw "EXISTS"]
  | .copyStatement =>
      seqs [kw "COPY", .rule .tableName, .alt (.rule .copyFrom) (.rule .copyTo)]
  | .copyFrom => seqs [kw "FROM", .rule .stringLiteral, .opt copyOptions]
  | .copyTo => seqs [kw "TO", .rule .stringLiteral, .opt copyOptions]
  | .copyOption => seqs [.rule .variable, tok "=", .rule .literal]
  | .columnDef => .seq (.rule .variable) (.rule .dataType)
  | .dataType =>
      alts [kw "INT64", kw "INT32", kw "UINT64", kw "UINT32", kw "DOUBLE", kw "FLOAT", kw "STRING",
        kw "BOOL", kw "DATE", kw "TIMESTAMP", .rule .listType, .rule .structType]
  | .listType => seqs [kw "LIST", tok "(", .rule .dataType, tok ")"]
  | .structType =>
      seqs [kw "STRUCT", tok "(", .rule .variable, .rule .dataType,
        .star (seqs [tok ",", .rule .variable, .rule .dataType]), tok ")"]
  | .primaryKeyDef => seqs [kw "PRIMARY", kw "KEY", tok "(", .rule .variable, tok ")"]
  | .tableName => identifier
  | .clause =>
      alts [.rule .matchClause, .rule .optionalMatchClause, .rule .withClause, .rule .unwindClause,
        .rule .createClause, .rule .mergeClause, .rule .deleteClause, .rule .setClause,
        .rule .callClause, .rule .returnClause]
  | .optionalMatchClause => seqs [kw "OPTIONAL", kw "MATCH", commaList (.rule .pattern)]
  | .withClause =>
      seqs [kw "WITH", .rule .projectionItems, .opt (.rule .whereClause),
        .opt (.rule .orderByClause), .opt skipLimit]
  | .unwindClause => seqs [kw "UNWIND", .rule .expression, .rule .asOp, .rule .variable]
  | .createClause => .seq (kw "CREATE") (.rule .pattern)
  | .mergeClause =>
      seqs [kw "MERGE", .rule .pattern, .star (.alt (.rule .onCreateClause) (.rule .onMatchClause))]
  | .onCreateClause =>
      seqs [kw "ON", kw "CREATE", kw "SET", commaList (.rule .propertyAssignment)]
  | .onMatchClause =>
      seqs [kw "ON", kw "MATCH", kw "SET", commaList (.rule .propertyAssignment)]
  | .deleteClause =>
      .seq (.alt (.seq (.rule .detachKw) (kw "DELETE")) (kw "DELETE")) (commaList (.rule .variable))
  | .detachKw => kw "DETACH"
  | .setClause => .seq (kw "SET") (commaList (.rule .setItem))
  | .setItem => .alt (.rule .propertyAssignment) (.rule .mapAssignment)
  | .propertyAssignment => seqs [.rule .propertyLookup, tok "=", .rule .expression]
  | .mapAssignment =>
      seqs [.rule .variable, .alt (tok "+=") (tok "="), tok "\x7b", commaList (.rule .propertyItem),
        tok "\x7d"]
  | .removeClause => .seq (kw "REMOVE") (commaList (.rule .propertyLookup))
  | .matchClause => .seq (kw "MATCH") (commaList (.rule .pattern))
  | .callClause =>
      seqs [kw "CALL", .rule .procedureName, tok "(", .opt (commaList (.rule .expression)), tok ")",
        .opt (.rule .yieldClause)]
  | .procedureName => plainIdentifier
  | .yieldClause => .seq (kw "YIELD") (commaList (.rule .yieldItem))
  | .yieldItem => .seq (.rule .variable) (.opt (.seq (.rule .asOp) (.rule .variable)))
  | .pattern =>
      alts [.rule .allShortestPathsPattern, .rule .shortestPathPattern,
        .seq (.rule .nodePattern) (.star (.rule .relationshipChain))]
  | .shortestPathPattern =>
      seqs [tok "shortestPath", tok "(", .rule .nodePattern, .rule .relationshipChain, tok ")"]
  | .allShortestPathsPattern =>
      seqs [tok "allShortestPaths", tok "(", .rule .nodePattern, .rule .relationshipChain, tok ")"]
  | .nodePattern =>
      seqs [tok "(", .opt (.rule .variable), .opt (.rule .labels), .opt (.rule .properties),
        tok ")"]
  | .relationshipChain => .seq (.rule .relationshipPattern) (.rule .nodePattern)
  | .relationshipPattern =>
      seqs [.opt (.rule .leftArrow), tok "-", tok "[", .opt (.rule .variable), .opt (.rule .labels),
        .opt (.rule .varLenBounds), .opt (.rule .properties), tok "]", tok "-",
        .opt (.rule .rightArrow)]
  | .varLenBounds => .seq (tok "*") (.opt (.alt (.rule .range) (.rule .numberLiteral)))
  | .range => seqs [.opt (.rule .numberLiteral), tok "..", .opt (.rule .numberLiteral)]
  | .leftArrow => tok "<"
  | .rightArrow => tok ">"
  | .labels => seqs [tok ":", .rule .labelName, .star (.seq (tok "|") (.rule .labelName))]
  | .labelName => identifier
  | .variable => plainIdentifier
  | .properties => seqs [tok "\x7b", commaList (.rule .propertyItem), tok "\x7d"]
  | .propertyItem => seqs [.rule .propertyKey, tok ":", .rule .expression]
  | .propertyKey => identifier
  | .whereClause => .seq (kw "WHERE") (.rule .expression)
  | .returnClause =>
      seqs [kw "RETURN", .opt (.rule .distinctLiteral), .rule .projectionItems,
        .opt (.rule .orderByClause), .opt skipLimit]
  | .distinctLiteral => wordEnd (kw "DISTINCT")
  | .orderByClause => seqs [kw "ORDER", kw "BY", commaList (.rule .sortItem)]
  | .sortItem => .seq (.rule .expression) (.opt (.alt (.rule .asc) (.rule .desc)))
  | .asc => .alt (kw "ASCENDING") (wordEnd (kw "ASC"))
  | .desc => .alt (kw "DESCENDING") (wordEnd (kw "DESC"))
  | .skipClause => .seq (.alt (kw "SKIP") (kw "OFFSET")) (.rule .numberLiteral)
  | .limitClause => .seq (kw "LIMIT") (.rule .numberLiteral)
  | .star => tok "*"
  | .projectionItems => .alt (.rule .star) (commaList (.rule .projectionItem))
  | .expression => .rule .orExpr
  | .orExpr => .seq (.rule .xorExpr) (.star (.seq (.rule .orOp) (.rule .xorExpr)))
  | .xorExpr => .seq (.rule .andExpr) (.star (.seq (.rule .xorOp) (.rule .andExpr)))
  | .andExpr => .seq (.rule .notExpr) (.star (.seq (.rule .andOp) (.rule .notExpr)))
  | .notExpr => .seq (.star (.rule .notOp)) (.rule .comparisonExpr)
  | .orOp => wordEnd (kw "OR")
  | .xorOp => wordEnd (kw "XOR")
  | .andOp => wordEnd (kw "AND")
  | .notOp => wordEnd (kw "NOT")
  | .comparisonExpr =>
      .seq (.rule .term) (.opt (alts [.seq (.rule .comparisonOperator) (.rule .term),
        .rule .stringPredicate, .rule .isNullCheck, .rule .inCheck]))
  | .term => .seq (.rule .factor) (.star (.seq (.alt (.rule .addOp) (.rule .subOp)) (.rule .factor)))
  | .factor =>
      .seq (.rule .atom)
        (.star (.seq (alts [.rule .mulOp, .rule .divOp, .rule .modOp]) (.rule .atom)))
  | .unaryMinus => .seq (.rule .subOp) (.rule .atom)
  | .addOp => tok "+"
  | .subOp => tok "-"
  | .mulOp => tok "*"
  | .divOp => tok "/"
  | .modOp => tok "%"
  | .stringPredicate => alts [.rule .containsOp, .rule .startsWithOp, .rule .endsWithOp]
  | .isNullCheck => seqs [kw "IS", .opt (.rule .notOp), kw "NULL"]
  | .inCheck =>
      seqs [.alt (.seq (.rule .notOp) (kw "IN")) (kw "IN"), tok "[",
        .opt (commaList (.rule .expression)), tok "]"]
  | .containsOp => .seq (kw "CONTAINS") (.rule .term)
  | .startsWithOp => seqs [kw "STARTS", kw "WITH", .rule .term]
  | .endsWithOp => seqs [kw "ENDS", kw "WITH", .rule .term]
  | .comparisonOperator => alts [tok "<=", tok ">=", tok "<>", tok "!=", tok "=", tok "<", tok ">"]
  | .atom =>
      alts [.rule .listQuantifier, .rule .mapLiteral, .rule .countSubquery, .rule .existsSubquery,
        .rule .castExpression, .rule .extractExpression, .rule .caseExpression,
        .rule .listSubscript, .rule .allShortestPathsPattern, .rule .shortestPathPattern,
        .rule .functionCall, .rule .literal, .rule .listLiteral, .rule .propertyLookup,
        .rule .parameter, .rule .variable, .rule .parenthesizedExpression, .rule .unaryMinus]
  | .listQuantifier => alts [.rule .allQ, .rule .anyQ, .rule .noneQ, .rule .singleQ]
  | .allQ => quantifier "ALL"
  | .anyQ => quantifier "ANY"
  | .noneQ => quantifier "NONE"
  | .singleQ => quantifier "SINGLE"
  | .mapLiteral => seqs [tok "\x7b", .opt (commaList (.rule .propertyItem)), tok "\x7d"]
  | .castExpression =>
      seqs [kw "CAST", tok "(", .rule .expression, kw "AS", .rule .dataType, tok ")"]
  | .extractExpression =>
      seqs [kw "EXTRACT", tok "(", .rule .extractField, kw "FROM", .rule .expression, tok ")"]
  | .extractField =>
      alts [kw "YEAR", kw "MONTH", kw "DAY", kw "HOUR", kw "MINUTE", kw "SECOND", kw "QUARTER",
        kw "WEEK", kw "DOW", kw "DOY"]
  | .listSubscript =>
      seqs [.rule .variable, tok "[", .rule .expression, .opt (.rule .rangeOperator),
        .opt (.rule .expression), tok "]"]
  | .rangeOperator => tok ".."
  | .parameter => .seq (tok "$") (.rule .variable)
  | .existsSubquery => subquery "EXISTS"
  | .countSubquery => subquery "COUNT"
  | .caseExpression =>
      .alt
        (seqs [kw "CASE", .plus (.rule .whenThenClause), .opt (.rule .elseClause), kw "END"])
        (seqs [kw "CASE", .rule .expression, .plus (.rule .whenThenClause),
          .opt (.rule .elseClause), kw "END"])
  | .whenThenClause => seqs [kw "WHEN", .rule .expression, kw "THEN", .rule .expression]
  | .elseClause => .seq (kw "ELSE") (.rule .expression)
  | .functionCall =>
      seqs [.rule .variable, tok "(", .opt (.alt (.rule .star) (commaList (.rule .expression))),
        tok ")"]
  | .propertyLookup => seqs [.rule .variable, tok ".", .rule .propertyKey]
  | .parenthesizedExpression => seqs [tok "(", .rule .expression, tok ")"]
  | .literal =>
      alts [.rule .stringLiteral, .rule .numberLiteral, .rule .booleanLiteral, .rule .nullLiteral]
  | .listLiteral => seqs [tok "[", .opt (commaList (.rule .expression)), tok "]"]
  | .stringLiteral => .alt (quoted "'") (quoted "\"")
  | .numberLiteral =>
      seqs [.opt (tok "-"), .plus asciiDigit, .opt (.seq (tok ".") (.plus asciiDigit))]
  | .booleanLiteral => wordEnd (.alt (kw "TRUE") (kw "FALSE"))
  | .nullLiteral => wordEnd (kw "NULL")
  | .asOp => kw "AS"
  | .projectionItem => .seq (.rule .expression) (.opt (.seq (.rule .asOp) (.rule .variable)))

/-- The modifiers `_` and `@` of the rules. -/
def CypherRule.kind : CypherRule → Peg.Kind
  | .whitespace | .comment | .ddlStatement | .clause | .asOp => .silent
  | .tableName | .procedureName | .labelName | .variable | .propertyKey | .distinctLiteral | .asc
  | .desc | .orOp | .xorOp | .andOp | .notOp | .parameter | .stringLiteral | .numberLiteral
  | .booleanLiteral | .nullLiteral => .atomic
  | _ => .normal

def cypher : Peg.Grammar CypherRule where
  body := CypherRule.body
  kind := CypherRule.kind
  skip := .star (.alt (.rule .whitespace) (.rule .comment))

/-- The delimiters of a string literal. -/
def quotes : List Char := ['\'', '"']

/-- The texts of string literals: two equal quotes and between them no third one. -/
def IsStringLiteral (s : List Char) : Prop :=
  ∃ q body, q ∈ quotes ∧ q ∉ body ∧ s = q :: body ++ [q]

/-- The rules that atomic rules and the skipping call. -/
def CypherRule.inner : CypherRule → Bool
  | .variable | .whitespace | .comment => true
  | _ => false

/-! ## Quotes -/

section Terminals

variable {n : ℕ} {b : Bool} {input rest : List Char} {trees : List (Peg.Tree CypherRule)}

variable {s : String} {q : Char}

lemma run_tok (h : Peg.run cypher n b (CypherPeg.tok s) input = .ok rest trees) :
    input = s.toList ++ rest := by
  match n with
  | 0 => cases h
  | n + 1 =>
    rw [CypherPeg.tok, Peg.run, Peg.Result.ok, Option.some.injEq, Option.map_eq_some_iff] at h
    obtain ⟨rest', hstrip, heq⟩ := h
    cases heq
    obtain ⟨used, rfl, hused⟩ := Peg.strip_eq_some hstrip
    have hall : List.Forall₂ (· = ·) s.toList used := by simpa using hused
    rw [forall₂_eq_eq_eq] at hall
    rw [hall]

lemma run_not_any (hs : s.toList = [q])
    (h : Peg.run cypher n true (.seq (.not (CypherPeg.tok s)) CypherPeg.any) input =
      .ok rest trees) : ∃ c, c ≠ q ∧ input = c :: rest := by
  obtain ⟨n, rfl⟩ := Peg.exists_fuel h
  obtain ⟨rest₁, _, _, hnot, h, -⟩ := Peg.Result.andThen_eq_ok.1 h
  obtain ⟨rest₂, _, _, hskip, hany, -⟩ := Peg.Result.andThen_eq_ok.1 h
  cases hskip
  obtain ⟨n, rfl⟩ := Peg.exists_fuel hnot
  rw [Peg.run] at hnot
  split at hnot
  · cases hnot
  next hfail =>
    cases hnot
    cases input with
    | nil => cases hany
    | cons c input =>
      cases hany
      refine ⟨c, ?_, rfl⟩
      rintro rfl
      obtain ⟨n, rfl⟩ := Peg.exists_fuel hfail
      rw [CypherPeg.tok, hs, Peg.run, Peg.strip, if_pos (by simp)] at hfail
      cases hfail
  · cases hnot

lemma run_body (hs : s.toList = [q])
    (h : Peg.run cypher n true (.more (.seq (.not (CypherPeg.tok s)) CypherPeg.any)) input =
      .ok rest trees) : ∃ body, q ∉ body ∧ input = body ++ rest := by
  induction n generalizing input trees with
  | zero => cases h
  | succ n ih =>
    rcases Peg.Result.of_orElse_eq_ok h with h | h
    · obtain ⟨rest₁, _, _, hskip, h, -⟩ := Peg.Result.andThen_eq_ok.1 h
      cases hskip
      obtain ⟨rest₂, _, _, hone, hmore, -⟩ := Peg.Result.andThen_eq_ok.1 h
      obtain ⟨c, hc, rfl⟩ := run_not_any hs hone
      obtain ⟨body, hbody, rfl⟩ := ih hmore
      refine ⟨c :: body, ?_, rfl⟩
      rw [mem_cons, not_or]
      exact ⟨hc.symm, hbody⟩
    · cases h
      exact ⟨[], not_mem_nil, rfl⟩

lemma run_quoted (hs : s.toList = [q])
    (h : Peg.run cypher n true (CypherPeg.quoted s) input = .ok rest trees) :
    ∃ body, q ∉ body ∧ input = q :: body ++ q :: rest := by
  obtain ⟨n, rfl⟩ := Peg.exists_fuel h
  obtain ⟨rest₁, _, _, hopen, h, -⟩ := Peg.Result.andThen_eq_ok.1 h
  obtain ⟨rest₂, _, _, hskip, h, -⟩ := Peg.Result.andThen_eq_ok.1 h
  cases hskip
  obtain ⟨n, rfl⟩ := Peg.exists_fuel h
  obtain ⟨rest₃, _, _, hstar, h, -⟩ := Peg.Result.andThen_eq_ok.1 h
  obtain ⟨rest₄, _, _, hskip, hclose, -⟩ := Peg.Result.andThen_eq_ok.1 h
  cases hskip
  have hinput := run_tok hopen
  have hrest := run_tok hclose
  rw [hs] at hinput hrest
  subst hinput hrest
  have hbody : ∃ body, q ∉ body ∧ rest₁ = body ++ ([q] ++ rest) := by
    obtain ⟨n, rfl⟩ := Peg.exists_fuel hstar
    rcases Peg.Result.of_orElse_eq_ok hstar with h | h
    · obtain ⟨rest₅, _, _, hone, hmore, -⟩ := Peg.Result.andThen_eq_ok.1 h
      obtain ⟨c, hc, rfl⟩ := run_not_any hs hone
      obtain ⟨body, hbody, rfl⟩ := run_body hs hmore
      refine ⟨c :: body, ?_, rfl⟩
      rw [mem_cons, not_or]
      exact ⟨hc.symm, hbody⟩
    · cases h
      exact ⟨[], not_mem_nil, rfl⟩
  obtain ⟨body, hnot, rfl⟩ := hbody
  exact ⟨body, hnot, by simp⟩

end Terminals

lemma isStringLiteral_of_run {n : ℕ} {used rest : List Char} {trees : List (Peg.Tree CypherRule)}
    (h : Peg.run cypher n true (CypherRule.body .stringLiteral) (used ++ rest) = .ok rest trees) :
    IsStringLiteral used := by
  have hused : ∀ q body, q ∈ quotes → q ∉ body → used ++ rest = q :: body ++ q :: rest →
      IsStringLiteral used := by
    intro q body hq hbody heq
    have hsame : used ++ rest = (q :: body ++ [q]) ++ rest := by
      rw [heq]
      simp
    exact ⟨q, body, hq, hbody, append_cancel_right hsame⟩
  obtain ⟨n, rfl⟩ := Peg.exists_fuel h
  rcases Peg.Result.of_orElse_eq_ok h with h | h
  · obtain ⟨body, hbody, heq⟩ := run_quoted (q := '\'') rfl h
    exact hused _ body (by decide) hbody heq
  · obtain ⟨body, hbody, heq⟩ := run_quoted (q := '"') rfl h
    exact hused _ body (by decide) hbody heq

/-- No comment can be read from a text without `//`. -/
lemma run_comment_ne_ok {input : List Char} (h : ¬ ['/', '/'] <:+: input) (n : ℕ) (b : Bool)
    (rest : List Char) (trees : List (Peg.Tree CypherRule)) :
    Peg.run cypher n b (CypherRule.body .comment) input ≠ .ok rest trees := by
  intro hrun
  obtain ⟨n, rfl⟩ := Peg.exists_fuel hrun
  obtain ⟨rest₁, _, _, hopen, -⟩ := Peg.Result.andThen_eq_ok.1 hrun
  exact h ⟨[], rest₁, (run_tok hopen).symm⟩

/-- **Quotes are only read in string literals**, as long as there are no comments. -/
theorem cypher_confines :
    cypher.Confines .stringLiteral quotes IsStringLiteral (fun input => ¬ ['/', '/'] <:+: input)
      CypherRule.inner where
  suffix a b h hb := h (hb.trans (suffix_append a b).isInfix)
  lit_atomic := rfl
  lit_reads _ _ _ _ := isStringLiteral_of_run
  skip_plain := by decide
  skip_calls := by decide
  inner_ne := by
    rintro r hr rfl
    cases hr
  rules := by
    intro r hr
    by_cases hc : r = .comment
    · left
      subst hc
      exact fun n b input rest trees h => run_comment_ne_ok h n b rest trees
    · right
      revert hr hc
      cases r <;> decide

end LightningDB
