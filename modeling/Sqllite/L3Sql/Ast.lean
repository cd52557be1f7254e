import Sqllite.L1Encoding.Types

/-!
# Statements (`sqllite-parser/src/ast.rs`)

A real literal is its bit pattern.
-/
namespace Sqllite
open Lib.Span

/-- mirrors sqllite-parser/src/ast.rs:3-12 -/
inductive ColumnType where
  | null | integer | real | text | blob | numeric
  deriving DecidableEq, Repr

/-- mirrors sqllite-parser/src/ast.rs:75-81 -/
inductive UnaryOp where
  | not | minus | plus | bitNot
  deriving DecidableEq, Repr

/-- mirrors sqllite-parser/src/ast.rs:83-107 -/
inductive BinaryOp where
  | or | and | eq | notEq | lt | le | gt | ge | add | sub | mul | div | mod | concat
  | like | notLike | bitAnd | bitOr | shl | shr | is | isNot
  deriving DecidableEq, Repr

/-- mirrors sqllite-parser/src/ast.rs:31-73 -/
inductive Expr where
  | null
  | integer (n : Int64)
  | real (r : UInt64)
  | string (s : String)
  | blob (b : Bytes)
  | ident (name : String)
  | qualifiedIdent (table column : String)
  | star
  | qualifiedStar (table : String)
  | unaryOp (op : UnaryOp) (expr : Expr)
  | binaryOp (op : BinaryOp) (left right : Expr)
  | function (name : String) (distinct : Bool) (args : List Expr)
  | isNull (expr : Expr)
  | isNotNull (expr : Expr)
  | between (expr low high : Expr)
  | inList (expr : Expr) (values : List Expr)
  | case (base : Option Expr) (whenThen : List (Expr × Expr)) (elseExpr : Option Expr)
  | cast (expr : Expr) (toType : ColumnType)
  | collate (expr : Expr) (collation : String)
  | bind (n : Nat)

/-- mirrors sqllite-parser/src/ast.rs:14-21 -/
inductive ColumnConstraint where
  | primaryKey (autoincrement : Bool)
  | notNull
  | unique
  | default (e : Expr)

/-- mirrors sqllite-parser/src/ast.rs:23-29 -/
structure ColumnDef where
  name : String
  colType : ColumnType
  constraints : List ColumnConstraint

/-- mirrors sqllite-parser/src/ast.rs:109-114 -/
structure OrderTerm where
  expr : Expr
  desc : Bool

/-- mirrors sqllite-parser/src/ast.rs:116-121 -/
structure ResultColumn where
  expr : Expr
  «alias» : Option String

/-- mirrors sqllite-parser/src/ast.rs:142-147 -/
inductive JoinType where
  | cross | inner | left
  deriving DecidableEq, Repr

/-- A `SELECT` is of type `σ`, which is `Select` once that is defined.
mirrors sqllite-parser/src/ast.rs:123-140 -/
inductive TableRef (σ : Type) where
  | table (name : String) («alias» : Option String)
  | subquery (select : σ) («alias» : String)
  | join (left right : TableRef σ) (joinType : JoinType) (on : Option Expr)

/-- mirrors sqllite-parser/src/ast.rs:149-161 -/
structure Select where
  distinct : Bool
  columns : List ResultColumn
  «from» : Option (TableRef Select)
  whereClause : Option Expr
  groupBy : List Expr
  having : Option Expr
  orderBy : List OrderTerm
  limit : Option Expr
  offset : Option Expr

/-- mirrors sqllite-parser/src/ast.rs:173-180 -/
inductive ConflictAction where
  | rollback | abort | fail | ignore | replace
  deriving DecidableEq, Repr

/-- mirrors sqllite-parser/src/ast.rs:163-171 -/
structure Insert where
  orConflict : Option ConflictAction
  table : String
  columns : List String
  values : List (List Expr)
  select : Option Select

/-- mirrors sqllite-parser/src/ast.rs:182-188 -/
structure Update where
  table : String
  assignments : List (String × Expr)
  whereClause : Option Expr

/-- mirrors sqllite-parser/src/ast.rs:190-195 -/
structure Delete where
  table : String
  whereClause : Option Expr

/-- mirrors sqllite-parser/src/ast.rs:197-204 -/
structure CreateTable where
  ifNotExists : Bool
  name : String
  columns : List ColumnDef
  temp : Bool

/-- mirrors sqllite-parser/src/ast.rs:206-211 -/
structure DropTable where
  ifExists : Bool
  name : String

/-- mirrors sqllite-parser/src/ast.rs:213-220 -/
structure CreateIndex where
  ifNotExists : Bool
  unique : Bool
  name : String
  table : String
  columns : List String

/-- mirrors sqllite-parser/src/ast.rs:222-227 -/
structure Pragma where
  name : String
  value : Option Expr

/-- mirrors sqllite-parser/src/ast.rs:229-243 -/
inductive Statement where
  | select (s : Select)
  | insert (i : Insert)
  | update (u : Update)
  | delete (d : Delete)
  | createTable (c : CreateTable)
  | createIndex (c : CreateIndex)
  | dropTable (d : DropTable)
  | pragma (p : Pragma)
  | begin
  | commit
  | rollback

end Sqllite
