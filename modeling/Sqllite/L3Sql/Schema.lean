import Sqllite.Lib.Table
import Sqllite.L1Encoding.Values
import Sqllite.L3Sql.Ast

/-!
# The catalog in memory (`schema.rs`, without what touches the B-trees)

`to_lowercase` folds all of Unicode, which Lean's `String` does not, so it comes
as an instance: what is proved here holds for every folding. `eq_ignore_ascii_case`
folds the ASCII letters only.
-/
namespace Sqllite
open Lib Lib.Run Lib.Span

/-- `str::to_lowercase`. -/
class Unicode where
  toLowercase : String → String

/-- The folding of texts of ASCII characters. -/
@[reducible] def Unicode.ascii : Unicode := ⟨String.toLower⟩

export Unicode (toLowercase)

/-- `a.eq_ignore_ascii_case(b)`. -/
def eqIgnoreAsciiCase (a b : String) : Bool :=
  a.toList.map Char.toLower == b.toList.map Char.toLower

theorem eqIgnoreAsciiCase_refl (a : String) : eqIgnoreAsciiCase a a = true := beq_self_eq_true _

/-- mirrors sqllite-core/src/constants.rs:121 -/
def SCHEMA_TABLE_NAME : String := "sqlite_schema"

/-- mirrors sqllite-core/src/constants.rs:124 -/
def SCHEMA_TABLE_NAME_LEGACY : String := "sqlite_master"

/-- mirrors sqllite-core/src/schema.rs:15-24 -/
structure Column where
  name : String
  affinity : Affinity
  notNull : Bool
  primaryKey : Bool
  autoincrement : Bool
  defaultValue : Option Value
  deriving DecidableEq, Repr

/-- mirrors sqllite-core/src/schema.rs:26-28 -/
structure Index where
  name : String
  table : String
  columns : List String
  rootPage : Nat
  unique : Bool
  deriving DecidableEq, Repr

/-- mirrors sqllite-core/src/schema.rs:30-37 -/
structure Schema.Table where
  name : String
  rootPage : Nat
  columns : List Column
  rowidAlias : Option String
  deriving DecidableEq, Repr

/-- mirrors sqllite-core/src/schema.rs:40-42 -/
def Schema.Table.columnIndex (t : Schema.Table) (name : String) : Option Nat :=
  t.columns.findIdx? fun c => eqIgnoreAsciiCase c.name name

/-- mirrors sqllite-core/src/schema.rs:44-46 -/
def Schema.Table.columnCount (t : Schema.Table) : Nat := t.columns.length

theorem Schema.Table.columnIndex_lt {t : Schema.Table} {name : String} {i : Nat}
    (h : t.columnIndex name = some i) : i < t.columnCount :=
  (List.findIdx?_eq_some_iff_findIdx_eq.mp h).1

/-- `schema_btree` is the root page its B-tree has by now.
mirrors sqllite-core/src/schema.rs:49-56 -/
structure Schema where
  tables : Lib.Table String Schema.Table
  indexes : Lib.Table String Index
  schemaCookie : Nat
  schemaBtree : Option Nat

namespace Schema

/-- mirrors sqllite-core/src/schema.rs:59-61 -/
def new : Schema := { tables := ∅, indexes := ∅, schemaCookie := 0, schemaBtree := none }

section
variable [Unicode]

/-- mirrors sqllite-core/src/schema.rs:71-73 -/
def table (s : Schema) (name : String) : Option Schema.Table := s.tables.lookup (toLowercase name)

/-- mirrors sqllite-core/src/schema.rs:79 -/
def index (s : Schema) (name : String) : Option Index := s.indexes.lookup (toLowercase name)

end

/-- mirrors sqllite-core/src/schema.rs:67-69, overflow checked -/
def bumpCookie (s : Schema) : Result Schema :=
  if s.schemaCookie + 1 < 2 ^ 32 then .ok { s with schemaCookie := s.schemaCookie + 1 }
  else panicked

end Schema

/-- mirrors sqllite-core/src/schema.rs:430-440 -/
def exprToValue : Expr → Value
  | .null => .null
  | .integer i => .integer i
  | .real r => .real r
  | .string s => .text s
  | .blob b => .blob b
  | _ => .null

/-- The loop body of `column_def_to_column`. -/
def applyConstraint (col : Column) : ColumnConstraint → Column
  | .primaryKey autoincrement => { col with primaryKey := true, autoincrement := autoincrement }
  | .notNull => { col with notNull := true }
  | .unique => col
  | .default expr => { col with defaultValue := some (exprToValue expr) }

/-- mirrors sqllite-core/src/schema.rs:398-428 -/
def columnDefToColumn (d : ColumnDef) : Column :=
  let affinity := match d.colType with
    | .integer => .integer
    | .real => .real
    | .text => .text
    | .blob => .blob
    | _ => .numeric
  d.constraints.foldl applyConstraint
    { name := d.name, affinity := affinity, notNull := false, primaryKey := false
      autoincrement := false, defaultValue := none }

/-- The name `create_sql` writes for a type. -/
def ColumnType.sqlName : ColumnType → String
  | .integer => "INTEGER"
  | .real => "REAL"
  | .text => "TEXT"
  | .blob => "BLOB"
  | .null => "NULL"
  | .numeric => "NUMERIC"

/-- mirrors sqllite-core/src/schema.rs:442-466 -/
def createSql (create : CreateTable) : String :=
  "CREATE TABLE " ++ (if create.ifNotExists then "IF NOT EXISTS " else "") ++ create.name ++ "(" ++
    ", ".intercalate (create.columns.map fun col => col.name ++ " " ++ col.colType.sqlName) ++ ")"

/-- mirrors sqllite-core/src/schema.rs:468-474 -/
def createIndexSql (create : CreateIndex) : String :=
  "CREATE " ++ (if create.unique then "UNIQUE " else "") ++ "INDEX " ++
    (if create.ifNotExists then "IF NOT EXISTS " else "") ++ create.name ++ " ON " ++
    create.table ++ "(" ++ ", ".intercalate create.columns ++ ")"

end Sqllite
