import Sqllite.L3Sql.CompileSelect
import Sqllite.L4Vdbe.Pragma

/-!
# Code for statements (`compile.rs`)

The text of a statement enters as what `parse_one` makes of it: the statement,
or the message of the error.
-/
namespace Sqllite
open Lib.Run

/-- What `parse_one` returns. -/
abbrev Parsed := Except String Statement

/-- `Init`, `Transaction`, `OpenWrite`: how a change of a table begins. -/
def openForWrite (table : String) : List Insn :=
  [{ opcode := .init, p2 := 1 }, { opcode := .transaction }, { opcode := .openWrite, p4 := .string table }]

/-- `table {} has no column named {col}`, for the first such column. -/
def checkColumns (table : Schema.Table) (name : String) (columns : List String) : Result Unit :=
  match columns.find? fun col => (table.columnIndex col).isNone with
  | some col => fail .error s!"table {name} has no column named {col}"
  | none => .ok ()

/-- The code for the values of a row, from register `reg` on. -/
def compileValues : Int → List Expr → List Insn
  | _, [] => []
  | reg, expr :: exprs => compileExpr expr reg ++ compileValues (reg + 1) exprs

/-- The loop body of `compile_insert`. -/
def compileRow (name : String) (nCols : Nat) (row : List Expr) : Result (List Insn) :=
  if row.length ≠ nCols then
    fail .error s!"table {name} has {nCols} columns but {row.length} values were supplied"
  else .ok (compileValues 2 row ++
    [{ opcode := .newRowid, p1 := 1 },
      { opcode := .makeRecord, p1 := nCols, p2 := 2, p3 := 10 },
      { opcode := .insert, p1 := 10, p3 := 1 }])

/-- The code of one assignment; `compile_update` has checked that the column is there. -/
def compileAssignment (table : Schema.Table) (assignment : String × Expr) : List Insn :=
  match table.columnIndex assignment.1 with
  | some colIdx => compileExprWithColumns assignment.2 (some table) 0 (colIdx + 2)
  | none => []

/-- The condition of a scan that changes rows, and the address of the jump behind it. -/
def compileChangeWhere (prog : Program) (whereClause : Option Expr) (table : Schema.Table) :
    Program × Option Nat :=
  match whereClause with
  | some w =>
    let prog := prog.emitAll (compileWhereExpr w table 0 0)
    (prog.emit { opcode := .ifNot }, some prog.here)
  | none => (prog, none)

/-- A scan of a table that does `change` on each row that passes the condition. -/
def compileChange (nReg : Nat) (name : String) (table : Schema.Table) (whereClause : Option Expr)
    (change : List Insn) : Program :=
  let prog := { Program.new with nReg := nReg }.emitAll (openForWrite name)
  let rewind := prog.here
  let prog := prog.emit { opcode := .rewind }
  let (prog, whereSkip) := compileChangeWhere prog whereClause table
  let prog := prog.emitAll change
  let prog := patchOpt prog whereSkip prog.here
  let prog := prog.emit { opcode := .last, p2 := (rewind + 1 : Nat) }
  let prog := prog.patchP2 rewind prog.here
  prog.emit { opcode := .halt }

section
variable [Unicode]

/-- mirrors sqllite-core/src/compile.rs:32-138 -/
def compileInsert (insert : Insert) (schema : Schema) : Result Program :=
  match schema.table insert.table with
  | none => fail .error s!"no such table: {insert.table}"
  | some table => do
    checkColumns table insert.table insert.columns
    let nCols := if insert.columns.isEmpty then table.columnCount else insert.columns.length
    let rows ← insert.values.mapM (compileRow insert.table nCols)
    pure { Program.new with
      nReg := 16
      insns := openForWrite insert.table ++ rows.flatten ++ [{ opcode := .halt }] }

/-- mirrors sqllite-core/src/compile.rs:140-234 -/
def compileDelete (delete : Delete) (schema : Schema) : Result Program :=
  match schema.table delete.table with
  | none => fail .error s!"no such table: {delete.table}"
  | some table => .ok (compileChange 0 delete.table table delete.whereClause [{ opcode := .delete }])

/-- The code that writes an updated row: its old values, the assignments, the record. -/
def compileUpdateRow (update : Update) (table : Schema.Table) : List Insn :=
  let n := table.columnCount
  ((List.range n).map fun j => { opcode := .column, p1 := (j + 2 : Nat), p3 := j }) ++
    update.assignments.flatMap (compileAssignment table) ++
    [{ opcode := .rowid, p1 := 1 },
      { opcode := .makeRecord, p1 := n, p2 := 2, p3 := 10 },
      { opcode := .insert, p1 := 10, p3 := 1, p5 := 1 }]

/-- mirrors sqllite-core/src/compile.rs:236-266 -/
def compileUpdate (update : Update) (schema : Schema) : Result Program :=
  match schema.table update.table with
  | none => fail .error s!"no such table: {update.table}"
  | some table => do
    checkColumns table update.table (update.assignments.map (·.1))
    pure (compileChange (table.columnCount + 16) update.table table update.whereClause
      (compileUpdateRow update table))

end

/-- mirrors sqllite-core/src/compile.rs:268 -/
def compileCreateIndex : Program := { Program.new with insns := [{ opcode := .halt }] }

/-- mirrors sqllite-core/src/compile.rs:270-305 -/
def compileCreateTable (create : CreateTable) : Program :=
  { Program.new with insns :=
      [{ opcode := .init, p2 := 1 }, { opcode := .transaction },
        { opcode := .createBtree, p4 := .string create.name }, { opcode := .halt }] }

/-- mirrors sqllite-core/src/compile.rs:307-326 -/
def compileDropTable (drop : DropTable) : Program :=
  { Program.new with insns :=
      [{ opcode := .dropTable, p4 := .string drop.name }, { opcode := .halt }] }

/-- mirrors sqllite-core/src/compile.rs:328-353; `expr_to_pragma_value` is
`pragma_value_from_expr` -/
def compilePragma (pragma : Pragma) : Program :=
  { insns := [{ opcode := .pragma, p4 := .pragma pragma.name (pragma.value.map pragmaValueFromExpr) },
      { opcode := .halt }]
    nReg := 8
    readOnly := true }

/-- mirrors sqllite-core/src/compile.rs:365-384 -/
def compileBegin : Program := { Program.new with insns := [{ opcode := .transaction }, { opcode := .halt }] }

/-- mirrors sqllite-core/src/compile.rs:386-397 -/
def compileCommit : Program := { Program.new with insns := [{ opcode := .halt }] }

/-- mirrors sqllite-core/src/compile.rs:399-410 -/
def compileRollback : Program := { Program.new with insns := [{ opcode := .halt }] }

/-- mirrors sqllite-core/src/compile.rs:14-30 -/
def compile [Unicode] (sql : Parsed) (schema : Schema) : Result Program :=
  match sql with
  | .error e => .error (.err (.parse e))
  | .ok (.select s) => compileSelect s schema
  | .ok (.insert i) => compileInsert i schema
  | .ok (.update u) => compileUpdate u schema
  | .ok (.delete d) => compileDelete d schema
  | .ok (.createTable c) => .ok (compileCreateTable c)
  | .ok (.createIndex _) => .ok compileCreateIndex
  | .ok (.dropTable d) => .ok (compileDropTable d)
  | .ok (.pragma p) => .ok (compilePragma p)
  | .ok .begin => .ok compileBegin
  | .ok .commit => .ok compileCommit
  | .ok .rollback => .ok compileRollback

end Sqllite
