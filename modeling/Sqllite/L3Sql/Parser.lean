import Sqllite.L3Sql.Lexer

/-!
# The SQL parser (`sqllite-parser/src/parser/`)

A recursive descent over the tokens. `n` bounds the rounds of each loop and the depth
of the recursion; `parseOne` takes one more than there are tokens.
-/
namespace Sqllite
open Lib Lib.Run

/-- The `{:?}` of a statement, which names a subquery. -/
class DebugText where
  select : Select → String

/-- The text of `found` is the `{:?}` of the token, or `end of input`.
mirrors sqllite-parser/src/parser/mod.rs:10-16, without `Eof`, which nothing makes -/
inductive ParseError where
  | syntaxError (found : Option Token) (message : String)

/-- mirrors sqllite-parser/src/parser/parser_impl.rs:7-10 -/
structure Parser where
  tokens : List SpannedToken
  pos : Nat

abbrev ParserM (α : Type) := Prog ParseError Parser α

namespace Parser

/-- mirrors sqllite-parser/src/parser/parser_impl.rs:13-15 -/
def new (tokens : List SpannedToken) : Parser := { tokens := tokens, pos := 0 }

/-- mirrors sqllite-parser/src/parser/parser_impl.rs:17-19 -/
def isAtEnd (s : Parser) : Bool := decide (s.tokens.length ≤ s.pos)

/-! ## Token helpers -/

/-- mirrors sqllite-parser/src/parser/parser_impl.rs:652-654 -/
def currentToken : ParserM (Option Token) := do
  let s ← get
  pure (s.tokens[s.pos]?.map (·.token))

/-- mirrors sqllite-parser/src/parser/parser_impl.rs:656-661 -/
def advance : ParserM (Option SpannedToken) := do
  modify fun s => if s.isAtEnd then s else { s with pos := s.pos + 1 }
  let s ← get
  if s.pos = 0 then throw .panic else pure s.tokens[s.pos - 1]?

/-- mirrors sqllite-parser/src/parser/parser_impl.rs:663-667 -/
def check (word : Word) : ParserM Bool := do
  let t ← currentToken
  pure ((t.map fun t => decide (t.kind = .word word)).getD false)

/-- mirrors sqllite-parser/src/parser/parser_impl.rs:669-674 -/
def checkIdent : ParserM Bool := do
  let t ← currentToken
  pure (t.any fun t => t.kind.isIdent)

/-- mirrors sqllite-parser/src/parser/parser_impl.rs:676-683 -/
def matchToken (word : Word) : ParserM Bool := do
  if ← check word then do
    let _ ← advance
    pure true
  else pure false

/-- mirrors sqllite-parser/src/parser/parser_impl.rs:730-739 -/
def error {α : Type} (message : String) : ParserM α := do
  let t ← currentToken
  throw (.err (.syntaxError t message))

/-- mirrors sqllite-parser/src/parser/parser_impl.rs:685-691 -/
def expect (word : Word) : ParserM Unit := do
  if ← matchToken word then pure ()
  else error s!"expected Discriminant({word.ctorIdx})"

/-- mirrors sqllite-parser/src/parser/parser_impl.rs:693-698 -/
def atJoin : ParserM Bool := do
  let t ← currentToken
  pure (t.any fun t => t.kind ∈ [.word .join, .word .inner, .word .left, .word .cross])

/-- mirrors sqllite-parser/src/parser/parser_impl.rs:700-710 -/
def parseJoinType : ParserM JoinType := do
  if ← matchToken .cross then pure .cross
  else if ← matchToken .left then pure .left
  else if ← matchToken .inner then pure .inner
  else pure .inner

/-- mirrors sqllite-parser/src/parser/parser_impl.rs:722-728 -/
def isJoinKeyword : ParserM Bool := do
  let t ← currentToken
  pure (t.any fun t => t.kind ∈ [.word .join, .word .on, .word .where, .word .order,
    .word .group, .word .limit, .word .comma])

/-- mirrors sqllite-parser/src/parser/parser_impl.rs:618-630 -/
def parseIdent : ParserM String := do
  let t ← currentToken
  match t with
  | some (.ident s) | some (.quotedIdent s) | some (.backtickIdent s) => do
    let _ ← advance
    pure s
  | _ => error "expected identifier"

/-- `if self.match_token(..) { Some(..) } else { None }`. -/
def optional {α : Type} (word : Word) (m : ParserM α) : ParserM (Option α) := do
  if ← matchToken word then do
    let a ← m
    pure (some a)
  else pure none

/-- `loop { xs.push(..); if !self.match_token(&Token::Comma) { break; } }`. -/
def commaList {α : Type} (item : ParserM α) : Nat → ParserM (List α)
  | 0 => throw .panic
  | n + 1 => do
    let x ← item
    if ← matchToken .comma then do
      let xs ← commaList item n
      pure (x :: xs)
    else pure [x]

/-! ## Expressions -/

/-- The loop over operators of one precedence; `left` is what stands in front. -/
def operatorLoop (op : ParserM (Option BinaryOp)) (operand : ParserM Expr) :
    Nat → Expr → ParserM Expr
  | 0, _ => throw .panic
  | n + 1, left => do
    let found ← op
    match found with
    | none => pure left
    | some binary => do
      let right ← operand
      operatorLoop op operand n (.binaryOp binary left right)

/-- An operand, and the loop. -/
def operatorChain (op : ParserM (Option BinaryOp)) (operand : ParserM Expr) (n : Nat) :
    ParserM Expr := do
  let left ← operand
  operatorLoop op operand n left

section
variable [DebugText]

/-- What stands behind the name of a function.
mirrors sqllite-parser/src/parser/parser_impl.rs:584-610 -/
def parseIdentExpr (expr : ParserM Expr) (n : Nat) (name : String) : ParserM Expr := do
  if ← matchToken .lParen then do
    let args ← (do if ← check .rParen then pure [] else commaList expr n : ParserM (List Expr))
    expect .rParen
    pure (.function name false args)
  else if ← matchToken .dot then do
    let col ← parseIdent
    pure (.qualifiedIdent name col)
  else pure (.ident name)

/-- What stands behind `count`.
mirrors sqllite-parser/src/parser/parser_impl.rs:563-582 -/
def parseCount (expr : ParserM Expr) (n : Nat) : ParserM Expr := do
  expect .lParen
  let distinct ← matchToken .distinct
  let args ← (do if ← matchToken .star then pure [.star] else commaList expr n :
    ParserM (List Expr))
  expect .rParen
  pure (.function "count" distinct args)

/-- What stands behind a parenthesis.
mirrors sqllite-parser/src/parser/parser_impl.rs:553-561 -/
def parseParen (expr : ParserM Expr) (select : ParserM Select) : ParserM Expr := do
  if ← matchToken .select then do
    let q ← select
    expect .rParen
    let text := DebugText.select q
    pure (.ident s!"({text})")
  else do
    let e ← expr
    expect .rParen
    pure e

/-- `expr` and `select` are the expressions and queries inside.
mirrors sqllite-parser/src/parser/parser_impl.rs:526-616 -/
def parsePrimaryExpr (expr : ParserM Expr) (select : ParserM Select) (n : Nat) :
    ParserM Expr := do
  if ← matchToken .null then pure .null
  else do
    let current ← currentToken
    match current with
    | some (.integerLit k) => do
      let _ ← advance
      pure (.integer k)
    | some (.realLit r) => do
      let _ ← advance
      pure (.real r)
    | some (.stringLit s) => do
      let _ ← advance
      pure (.string s)
    | some (.blobLit b) => do
      let _ ← advance
      pure (.blob b)
    | some (.word .star) => do
      let _ ← advance
      pure .star
    | some (.word .lParen) => do
      let _ ← advance
      parseParen expr select
    | some (.word .count) => do
      let _ ← advance
      parseCount expr n
    | some (.ident name) | some (.quotedIdent name) | some (.backtickIdent name) => do
      let _ ← advance
      parseIdentExpr expr n name
    | _ => error "expected expression"

/-- mirrors sqllite-parser/src/parser/parser_impl.rs:512-524 -/
def parseUnaryExpr (primary : ParserM Expr) : Nat → ParserM Expr
  | 0 => throw .panic
  | n + 1 => do
    if ← matchToken .minus then do
      let e ← parseUnaryExpr primary n
      pure (.unaryOp .minus e)
    else if ← matchToken .plus then parseUnaryExpr primary n
    else primary

def multiplicativeOp : ParserM (Option BinaryOp) := do
  if ← matchToken .star then pure (some .mul)
  else if ← matchToken .slash then pure (some .div)
  else if ← matchToken .percent then pure (some .mod)
  else pure none

/-- mirrors sqllite-parser/src/parser/parser_impl.rs:490-510 -/
def parseMultiplicativeExpr (primary : ParserM Expr) (n : Nat) : ParserM Expr :=
  operatorChain multiplicativeOp (parseUnaryExpr primary n) n

def additiveOp : ParserM (Option BinaryOp) := do
  if ← matchToken .plus then pure (some .add)
  else if ← matchToken .minus then pure (some .sub)
  else if ← matchToken .concat then pure (some .concat)
  else pure none

/-- mirrors sqllite-parser/src/parser/parser_impl.rs:468-488 -/
def parseAdditiveExpr (primary : ParserM Expr) (n : Nat) : ParserM Expr :=
  operatorChain additiveOp (parseMultiplicativeExpr primary n) n

def comparisonOp : ParserM (Option BinaryOp) := do
  if ← matchToken .eq then pure (some .eq)
  else if ← matchToken .eqEq then pure (some .eq)
  else if ← matchToken .notEq then pure (some .notEq)
  else if ← matchToken .lt then pure (some .lt)
  else if ← matchToken .le then pure (some .le)
  else if ← matchToken .gt then pure (some .gt)
  else if ← matchToken .ge then pure (some .ge)
  else if ← matchToken .like then pure (some .like)
  else if ← matchToken .is then do
    if ← matchToken .not then pure (some .isNot) else pure (some .is)
  else pure none

/-- mirrors sqllite-parser/src/parser/parser_impl.rs:432-466 -/
def parseComparisonExpr (primary : ParserM Expr) (n : Nat) : ParserM Expr :=
  operatorChain comparisonOp (parseAdditiveExpr primary n) n

/-- mirrors sqllite-parser/src/parser/parser_impl.rs:421-430 -/
def parseNotExpr (comparison : ParserM Expr) : Nat → ParserM Expr
  | 0 => throw .panic
  | n + 1 => do
    if ← matchToken .not then do
      let e ← parseNotExpr comparison n
      pure (.unaryOp .not e)
    else comparison

def andOp : ParserM (Option BinaryOp) := do
  if ← matchToken .and then pure (some .and) else pure none

/-- mirrors sqllite-parser/src/parser/parser_impl.rs:408-419 -/
def parseAndExpr (primary : ParserM Expr) (n : Nat) : ParserM Expr :=
  operatorChain andOp (parseNotExpr (parseComparisonExpr primary n) n) n

def orOp : ParserM (Option BinaryOp) := do
  if ← matchToken .or then pure (some .or) else pure none

/-- mirrors sqllite-parser/src/parser/parser_impl.rs:395-406 -/
def parseOrExpr (primary : ParserM Expr) (n : Nat) : ParserM Expr :=
  operatorChain orOp (parseAndExpr primary n) n

/-! ## Queries -/

/-- mirrors sqllite-parser/src/parser/parser_impl.rs:146-158 -/
def parseResultColumn (expr : ParserM Expr) : ParserM ResultColumn := do
  let e ← expr
  let name ← optional .as parseIdent
  pure { expr := e, «alias» := name }

/-- mirrors sqllite-parser/src/parser/parser_impl.rs:136-161 -/
def parseResultColumns (expr : ParserM Expr) (n : Nat) : ParserM (List ResultColumn) := do
  if ← matchToken .star then pure [{ expr := .star, «alias» := none }]
  else commaList (parseResultColumn expr) n

/-- An alias without `AS`. -/
def parseAlias : ParserM (Option String) := do
  let isIdent ← checkIdent
  let isKeyword ← isJoinKeyword
  if isIdent && !isKeyword then do
    let name ← parseIdent
    pure (some name)
  else pure none

/-- The loop of `parse_table_ref`. -/
def parseJoins (expr : ParserM Expr) : Nat → TableRef Select → ParserM (TableRef Select)
  | 0, _ => throw .panic
  | n + 1, left => do
    if ← atJoin then do
      let joinType ← parseJoinType
      expect .join
      let rightName ← parseIdent
      let rightAlias ← parseAlias
      let on ← optional .on expr
      parseJoins expr n (.join left (.table rightName rightAlias) joinType on)
    else pure left

/-- mirrors sqllite-parser/src/parser/parser_impl.rs:163-196 -/
def parseTableRef (expr : ParserM Expr) (n : Nat) : ParserM (TableRef Select) := do
  let name ← parseIdent
  let rename ← parseAlias
  parseJoins expr n (.table name rename)

/-- mirrors sqllite-parser/src/parser/parser_impl.rs:97-105 -/
def parseOrderTerm (expr : ParserM Expr) : ParserM OrderTerm := do
  let e ← expr
  let desc ← matchToken .desc
  if desc then pure { expr := e, desc := true }
  else do
    let _ ← matchToken .asc
    pure { expr := e, desc := false }

/-- A list behind two words, or none. -/
def parseListBy {α : Type} (word : Word) (item : ParserM α) (n : Nat) : ParserM (List α) := do
  if ← matchToken word then do
    expect .by
    commaList item n
  else pure []

/-- mirrors sqllite-parser/src/parser/parser_impl.rs:114-121 -/
def parseOffset (expr : ParserM Expr) : ParserM (Option Expr) := do
  let comma ← matchToken .comma
  let found ← (if comma then pure true else matchToken .offset : ParserM Bool)
  if found then do
    let _ ← matchToken .offset
    let e ← expr
    pure (some e)
  else pure none

/-- mirrors sqllite-parser/src/parser/parser_impl.rs:67-134 -/
def parseSelect (expr : ParserM Expr) (n : Nat) : ParserM Select := do
  let distinct ← matchToken .distinct
  let columns ← parseResultColumns expr n
  let tables ← optional .from (parseTableRef expr n)
  let whereClause ← optional .where expr
  let groupBy ← parseListBy .group expr n
  let having ← optional .having expr
  let orderBy ← parseListBy .order (parseOrderTerm expr) n
  let limit ← optional .limit expr
  let offset ← parseOffset expr
  pure { distinct := distinct, columns := columns, «from» := tables, whereClause := whereClause,
         groupBy := groupBy, having := having, orderBy := orderBy, limit := limit
         offset := offset }

/-- mirrors sqllite-parser/src/parser/parser_impl.rs:391-393 -/
def parseExpr : Nat → ParserM Expr
  | 0 => throw .panic
  | n + 1 => parseOrExpr (parsePrimaryExpr (parseExpr n) (parseSelect (parseExpr n) n) n) (n + 1)

/-! ## Statements -/

/-- mirrors sqllite-parser/src/parser/parser_impl.rs:632-649 -/
def parseOrConflict : ParserM (Option ConflictAction) := do
  if ← matchToken .or then do
    if ← matchToken .rollback then pure (some .rollback)
    else if ← matchToken .abortKw then pure (some .abort)
    else if ← matchToken .fail then pure (some .fail)
    else if ← matchToken .ignore then pure (some .ignore)
    else if ← matchToken .replace then pure (some .replace)
    else pure none
  else pure none

/-- `( .. , .. )`. -/
def parseList {α : Type} (item : ParserM α) (n : Nat) : ParserM (List α) := do
  expect .lParen
  let xs ← commaList item n
  expect .rParen
  pure xs

/-- mirrors sqllite-parser/src/parser/parser_impl.rs:198-236 -/
def parseInsert (n : Nat) : ParserM Insert := do
  let orConflict ← parseOrConflict
  expect .into
  let table ← parseIdent
  let columns ← (do
    if ← matchToken .lParen then do
      let columns ← commaList parseIdent n
      expect .rParen
      pure columns
    else pure [] : ParserM (List String))
  expect .values
  let values ← commaList (parseList (parseExpr n) n) n
  pure { orConflict := orConflict, table := table, columns := columns, values := values
         select := none }

/-- mirrors sqllite-parser/src/parser/parser_impl.rs:242-247 -/
def parseAssignment (n : Nat) : ParserM (String × Expr) := do
  let col ← parseIdent
  expect .eq
  let value ← parseExpr n
  pure (col, value)

/-- mirrors sqllite-parser/src/parser/parser_impl.rs:238-261 -/
def parseUpdate (n : Nat) : ParserM Update := do
  let table ← parseIdent
  expect .set
  let assignments ← commaList (parseAssignment n) n
  let whereClause ← optional .where (parseExpr n)
  pure { table := table, assignments := assignments, whereClause := whereClause }

/-- mirrors sqllite-parser/src/parser/parser_impl.rs:263-275 -/
def parseDelete (n : Nat) : ParserM Delete := do
  expect .from
  let table ← parseIdent
  let whereClause ← optional .where (parseExpr n)
  pure { table := table, whereClause := whereClause }

/-- `IF NOT EXISTS`. -/
def parseIfNotExists : ParserM Bool := do
  if ← matchToken .if then do
    expect .not
    expect .exists
    pure true
  else pure false

/-- mirrors sqllite-parser/src/parser/parser_impl.rs:277-284 -/
def parseCreateIndex (unique : Bool) (n : Nat) : ParserM CreateIndex := do
  let ifNotExists ← parseIfNotExists
  let name ← parseIdent
  expect .on
  let table ← parseIdent
  let columns ← parseList parseIdent n
  pure { ifNotExists := ifNotExists, unique := unique, name := name, table := table
         columns := columns }

/-- `to_ascii_lowercase`, and the names of the types.
mirrors sqllite-parser/src/parser/parser_impl.rs:349-359 -/
def columnTypeOfName (name : String) : ColumnType :=
  let name := name.toLower
  if name ∈ ["int", "integer"] then .integer
  else if name ∈ ["float", "double", "real"] then .real
  else if name ∈ ["varchar", "char", "character", "text", "clob"] then .text
  else if name = "blob" then .blob
  else if name ∈ ["boolean", "bool"] then .integer
  else .numeric

/-- mirrors sqllite-parser/src/parser/parser_impl.rs:336-366 -/
def parseColumnType : ParserM ColumnType := do
  if ← matchToken .integer then pure .integer
  else if ← matchToken .real then pure .real
  else if ← matchToken .text then pure .text
  else if ← matchToken .blob then pure .blob
  else if ← matchToken .null then pure .null
  else do
    let current ← currentToken
    match current with
    | some (.ident name) => do
      let _ ← advance
      pure (columnTypeOfName name)
    | _ => pure .numeric

/-- The loop over `PRIMARY KEY`. -/
def parsePrimaryKeys : Nat → ParserM (List ColumnConstraint)
  | 0 => throw .panic
  | n + 1 => do
    if ← matchToken .primary then do
      expect .key
      let autoincrement ← matchToken .autoincrement
      let rest ← parsePrimaryKeys n
      pure (.primaryKey autoincrement :: rest)
    else pure []

/-- mirrors sqllite-parser/src/parser/parser_impl.rs:310-334 -/
def parseColumnDef (n : Nat) : ParserM ColumnDef := do
  let name ← parseIdent
  let colType ← parseColumnType
  let keys ← parsePrimaryKeys n
  let notNull ← (do
    if ← matchToken .not then do
      expect .null
      pure [.notNull]
    else pure [] : ParserM (List ColumnConstraint))
  let unique ← matchToken .unique
  let default ← optional .default (parseExpr n)
  pure { name := name, colType := colType
         constraints := keys ++ notNull ++ (if unique then [.unique] else []) ++
           (default.map ColumnConstraint.default).toList }

/-- mirrors sqllite-parser/src/parser/parser_impl.rs:286-308 -/
def parseCreateTable (n : Nat) : ParserM CreateTable := do
  let ifNotExists ← parseIfNotExists
  let name ← parseIdent
  let columns ← parseList (parseColumnDef n) n
  pure { ifNotExists := ifNotExists, name := name, columns := columns, temp := false }

/-- mirrors sqllite-parser/src/parser/parser_impl.rs:368-375 -/
def parseDropTable : ParserM DropTable := do
  let ifExists ← (do
    if ← matchToken .if then do
      expect .exists
      pure true
    else pure false : ParserM Bool)
  let name ← parseIdent
  pure { ifExists := ifExists, name := name }

/-- mirrors sqllite-parser/src/parser/parser_impl.rs:377-389 -/
def parsePragma (n : Nat) : ParserM Pragma := do
  let name ← parseIdent
  if ← matchToken .eq then do
    let e ← parseExpr n
    pure { name := name, value := some e }
  else if ← matchToken .lParen then do
    let e ← parseExpr n
    expect .rParen
    pure { name := name, value := some e }
  else pure { name := name, value := none }

/-- What stands behind `CREATE`. -/
def parseCreate (n : Nat) : ParserM Statement := do
  let unique ← matchToken .unique
  if ← matchToken .index then do
    let c ← parseCreateIndex unique n
    pure (.createIndex c)
  else do
    expect .table
    let c ← parseCreateTable n
    pure (.createTable c)

/-- What stands behind `DROP`. -/
def parseDrop : ParserM Statement := do
  expect .table
  let d ← parseDropTable
  pure (.dropTable d)

/-- mirrors sqllite-parser/src/parser/parser_impl.rs:27-65 -/
def parseStatement (n : Nat) : ParserM Statement := do
  if ← matchToken .select then do
    let s ← parseSelect (parseExpr n) n
    pure (.select s)
  else if ← matchToken .insert then do
    let i ← parseInsert n
    pure (.insert i)
  else if ← matchToken .update then do
    let u ← parseUpdate n
    pure (.update u)
  else if ← matchToken .delete then do
    let d ← parseDelete n
    pure (.delete d)
  else if ← matchToken .create then parseCreate n
  else if ← matchToken .drop then parseDrop
  else if ← matchToken .pragma then do
    let p ← parsePragma n
    pure (.pragma p)
  else if ← matchToken .begin then pure .begin
  else if ← matchToken .commit then pure .commit
  else if ← matchToken .rollback then pure .rollback
  else error "syntax error"

/-- mirrors sqllite-parser/src/parser/parser_impl.rs:21-25 -/
def skipSemicolons : Nat → ParserM Unit
  | 0 => throw .panic
  | n + 1 => do
    if ← check .semi then do
      let _ ← advance
      skipSemicolons n
    else pure ()

/-- The loop of `parse`. -/
def parseStatements (n : Nat) : Nat → ParserM (List Statement)
  | 0 => throw .panic
  | k + 1 => do
    let s ← get
    if s.isAtEnd then pure []
    else do
      let stmt ← parseStatement n
      skipSemicolons n
      let rest ← parseStatements n k
      pure (stmt :: rest)

end

end Parser

/-- mirrors sqllite-parser/src/parser/mod.rs:20-30 -/
def parse [DebugText] (items : List (Option SpannedToken)) : Res ParseError (List Statement) :=
  let tokens := tokenize items
  let n := tokens.length + 1
  outcome (Parser.parseStatements n n) (Parser.new tokens)

/-- `items` is what the lexer makes of the text.
mirrors sqllite-parser/src/parser/mod.rs:32-38 -/
def parseOne [DebugText] (items : List (Option SpannedToken)) : Res ParseError Statement :=
  let tokens := tokenize items
  outcome (Parser.parseStatement (tokens.length + 1)) (Parser.new tokens)

end Sqllite
