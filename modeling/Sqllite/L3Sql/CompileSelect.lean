import Sqllite.L3Sql.CompileExpr

/-!
# Code for `SELECT` (`compile_select.rs`)

Registers, cursors and addresses are the operands of the instructions; the
buffered row is in the registers from 0 on, a condition in register 1.
-/
namespace Sqllite
open Lib.Run

/-- mirrors sqllite-core/src/compile_select.rs:8-12 -/
structure TableBinding where
  name : String
  «alias» : String
  cursor : Int
  deriving DecidableEq, Repr

/-- mirrors sqllite-core/src/compile_select.rs:14-17 -/
structure JoinInfo where
  joinType : JoinType
  on : Option Expr

/-- mirrors sqllite-core/src/compile_select.rs:19-22 -/
structure ColumnRef where
  tableIdx : Nat
  colIdx : Nat
  deriving DecidableEq, Repr

/-- mirrors sqllite-core/src/compile_select.rs:24-27 -/
inductive RowSource where
  | column (c : ColumnRef)
  | expr (e : Expr)

/-- mirrors sqllite-core/src/compile_select.rs:29-36 -/
structure SelectPlan where
  rowSources : List RowSource
  rowWidth : Nat
  outputWidth : Nat
  hasAggregates : Bool
  groupSpec : Option GroupBySpec
  sortKeys : List SortKey

section
variable [Unicode]

/-! ## Names -/

/-- mirrors sqllite-core/src/compile_select.rs:363-404 -/
def collectFrom (schema : Schema) : TableRef Select → List TableBinding → Option JoinInfo → Int →
    Result (List TableBinding × Option JoinInfo × Int)
  | .table name «alias», tables, join, nextCursor =>
    match schema.table name with
    | none => fail .error s!"no such table: {name}"
    | some _ =>
      let binding := { name := name, «alias» := «alias».getD name, cursor := nextCursor }
      .ok (tables ++ [binding], join, nextCursor + 1)
  | .join left right joinType on, tables, join, nextCursor => do
    let (tables, join, c) ← collectFrom schema left tables join nextCursor
    let (tables, _, c) ← collectFrom schema right tables join c
    pure (tables, some { joinType := joinType, on := on }, c)
  | .subquery _ _, _, _, _ => fail .error "subqueries in FROM are not supported"

/-- mirrors sqllite-core/src/compile_select.rs:716-726 -/
def findTableIndex (tables : List TableBinding) (name : String) : Result Nat :=
  match tables.findIdx? fun t => eqIgnoreAsciiCase t.name name || eqIgnoreAsciiCase t.alias name with
  | some i => .ok i
  | none => fail .error s!"no such table: {name}"

/-- The column of that name in a bound table. -/
def boundColumn (schema : Schema) (tb : TableBinding) (name : String) : Option Nat :=
  (schema.table tb.name).bind (·.columnIndex name)

/-- The loop of `resolve_expr_column` over the tables from `ti` on. -/
def findColumn (schema : Schema) (name : String) :
    List TableBinding → Nat → Option ColumnRef → Result (Option ColumnRef)
  | [], _, found => .ok found
  | tb :: tables, ti, found =>
    match boundColumn schema tb name with
    | none => findColumn schema name tables (ti + 1) found
    | some ci =>
      if found.isSome then fail .error s!"ambiguous column name: {name}"
      else findColumn schema name tables (ti + 1) (some { tableIdx := ti, colIdx := ci })

/-- mirrors sqllite-core/src/compile_select.rs:670-714 -/
def resolveExprColumn (expr : Expr) (schema : Schema) (tables : List TableBinding) :
    Result ColumnRef :=
  match expr with
  | .ident name => do
    match ← findColumn schema name tables 0 none with
    | some col => pure col
    | none => fail .error s!"no such column: {name}"
  | .qualifiedIdent table column => do
    let ti ← findTableIndex tables table
    match tables[ti]?.bind fun tb => boundColumn schema tb column with
    | some ci => pure { tableIdx := ti, colIdx := ci }
    | none => fail .error s!"no such column: {column}"
  | _ => fail .error "expected column reference"

/-! ## Conditions and rows -/

/-- The cursor of a column's table: `tables[col.table_idx].cursor`. -/
def cursorOf (tables : List TableBinding) (col : ColumnRef) : Int :=
  (tables[col.tableIdx]?.map (·.cursor)).getD 0

/-- mirrors sqllite-core/src/compile_select.rs:813-833 -/
def compileColumnOrExpr (expr : Expr) (schema : Schema) (tables : List TableBinding)
    (destReg : Int) : List Insn :=
  match resolveExprColumn expr schema tables with
  | .ok col =>
    [{ opcode := .column, p1 := destReg, p2 := cursorOf tables col, p3 := col.colIdx }]
  | .error _ => compileExpr expr destReg

/-- The opcode `compile_pred` takes for an operator. -/
def BinaryOp.predOpcode : BinaryOp → Opcode
  | .eq => .eq
  | .notEq => .ne
  | .lt => .lt
  | .le => .le
  | .gt => .gt
  | .ge => .ge
  | .and => .and
  | .or => .or
  | _ => .eq

/-- mirrors sqllite-core/src/compile_select.rs:777-811 -/
def compilePred (expr : Expr) (schema : Schema) (tables : List TableBinding) (destReg : Int) :
    List Insn :=
  match expr with
  | .binaryOp op left right =>
    compileColumnOrExpr left schema tables (destReg + 1) ++
      compileColumnOrExpr right schema tables (destReg + 2) ++
      [{ opcode := op.predOpcode, p1 := destReg, p2 := destReg + 1, p3 := destReg + 2 }]
  | _ => compileColumnOrExpr expr schema tables destReg

/-- The program, and the address of the jump behind the condition.
mirrors sqllite-core/src/compile_select.rs:754-775 -/
def compileOptionalWhere (prog : Program) (select : Select) (schema : Schema)
    (tables : List TableBinding) (destReg : Int) : Program × Option Nat :=
  match select.whereClause with
  | some w =>
    let prog := prog.emitAll (compilePred w schema tables destReg)
    (prog.emit { opcode := .ifNot, p1 := destReg }, some prog.here)
  | none => (prog, none)

/-- The code for one value of a row. -/
def loadSource (tables : List TableBinding) (schema : Schema) (reg : Int) : RowSource → List Insn
  | .column col =>
    [{ opcode := .column, p1 := reg, p2 := cursorOf tables col, p3 := col.colIdx }]
  | .expr e => compileColumnOrExpr e schema tables reg

/-- The code for the sources from register `reg` on. -/
def loadSources (tables : List TableBinding) (schema : Schema) : Int → List RowSource → List Insn
  | _, [] => []
  | reg, src :: sources =>
    loadSource tables schema reg src ++ loadSources tables schema (reg + 1) sources

/-- mirrors sqllite-core/src/compile_select.rs:728-752 -/
def compileRowLoad (plan : SelectPlan) (tables : List TableBinding) (schema : Schema) :
    List Insn := loadSources tables schema 0 plan.rowSources

/-- mirrors sqllite-core/src/compile_select.rs:263-283 -/
def emitScanResult (prog : Program) (plan : SelectPlan) (needsBuffer : Bool) : Program :=
  if needsBuffer then prog.emit { opcode := .rowData, p1 := plan.rowWidth }
  else prog.emit { opcode := .resultRow, p1 := plan.outputWidth }

/-! ## The plan -/

/-- mirrors sqllite-core/src/compile_select.rs:531-542 -/
def groupKeyContains (sources : List RowSource) (keyIndices : List Nat) (col : ColumnRef) : Bool :=
  keyIndices.any fun idx =>
    match sources[idx]? with
    | some (.column k) => k = col
    | _ => false

/-- The sources and the place of the column among them.
mirrors sqllite-core/src/compile_select.rs:544-554 -/
def pushUniqueColumn (sources : List RowSource) (col : ColumnRef) : List RowSource × Nat :=
  let here := sources.findIdx? fun existing =>
    match existing with
    | .column existing => existing = col
    | .expr _ => false
  match here with
  | some i => (sources, i)
  | none => (sources ++ [.column col], sources.length)

/-- mirrors sqllite-core/src/compile_select.rs:556-567 -/
def parseAggFunc (name : String) : Result AggFunc :=
  let lower := toLowercase name
  if lower = "count" then .ok .count
  else if lower = "sum" then .ok .sum
  else if lower = "min" then .ok .min
  else if lower = "max" then .ok .max
  else fail .error s!"unsupported aggregate: {name}"

/-- mirrors sqllite-core/src/compile_select.rs:641-668 -/
def exprMatches (a b : Expr) (schema : Schema) (tables : List TableBinding) : Bool :=
  match a, b with
  | .ident n1, .ident n2 => eqIgnoreAsciiCase n1 n2
  | .qualifiedIdent t1 c1, .qualifiedIdent t2 c2 =>
    eqIgnoreAsciiCase t1 t2 && eqIgnoreAsciiCase c1 c2
  | a, b =>
    match resolveExprColumn a schema tables, resolveExprColumn b schema tables with
    | .ok a, .ok b => a = b
    | _, _ => false

/-- Whether a source is the column of that name; a qualified name also names the table. -/
def namesSource (schema : Schema) (tables : List TableBinding) (table : Option String)
    (column : String) (src : RowSource) : Bool :=
  match src with
  | .expr _ => false
  | .column col =>
    match tables[col.tableIdx]? with
    | none => false
    | some tb =>
      (table.all fun t => eqIgnoreAsciiCase tb.name t || eqIgnoreAsciiCase tb.alias t) &&
        ((schema.table tb.name).bind (·.columns[col.colIdx]?)).any fun c =>
          eqIgnoreAsciiCase c.name column

/-- mirrors sqllite-core/src/compile_select.rs:600-639 -/
def resolveOrderInRowSources (expr : Expr) (schema : Schema) (tables : List TableBinding)
    (rowSources : List RowSource) : Option Nat :=
  match expr with
  | .ident name => rowSources.findIdx? (namesSource schema tables none name)
  | .qualifiedIdent table column => rowSources.findIdx? (namesSource schema tables (some table) column)
  | _ => none

def isStar : Expr → Bool
  | .star => true
  | .qualifiedStar _ => true
  | _ => false

/-- mirrors sqllite-core/src/compile_select.rs:569-598 -/
def resolveOrderIndex (expr : Expr) (schema : Schema) (tables : List TableBinding) (select : Select)
    (rowSources : List RowSource) (hasAggregates : Bool) : Result Nat :=
  match resolveOrderInRowSources expr schema tables rowSources with
  | some idx => .ok idx
  | none =>
    match select.columns.findIdx? fun rc => !isStar rc.expr && exprMatches rc.expr expr schema tables with
    | some i => .ok i
    | none =>
      let inKeys := select.groupBy.findIdx? fun ge => exprMatches ge expr schema tables
      match hasAggregates, inKeys with
      | true, some i => .ok i
      | _, _ => fail .error "unsupported ORDER BY expression"

/-- The columns of the GROUP BY clause, and their places among the sources. -/
def groupKeys (schema : Schema) (tables : List TableBinding) :
    List Expr → List RowSource → List Nat → Result (List RowSource × List Nat)
  | [], sources, keys => .ok (sources, keys)
  | expr :: exprs, sources, keys => do
    let col ← resolveExprColumn expr schema tables
    let (sources, key) := pushUniqueColumn sources col
    groupKeys schema tables exprs sources (keys ++ [key])

/-- The column an aggregate reads, `none` for `COUNT(*)`. -/
def aggColumn (schema : Schema) (tables : List TableBinding) (name : String) (func : AggFunc)
    (args : List Expr) (sources : List RowSource) : Result (List RowSource × Option Nat) :=
  match func, args with
  | .count, [.star] => .ok (sources, none)
  | .count, [] => panicked
  | _, [] => fail .error s!"{name} requires an argument"
  | _, arg :: _ => do
    let col ← resolveExprColumn arg schema tables
    let (sources, i) := pushUniqueColumn sources col
    pure (sources, some i)

/-- The select list of an aggregate query. -/
def aggColumns (schema : Schema) (tables : List TableBinding) (keys : List Nat) :
    List ResultColumn → List RowSource → List AggSpec → Result (List RowSource × List AggSpec)
  | [], sources, aggs => .ok (sources, aggs)
  | col :: cols, sources, aggs =>
    match col.expr with
    | .function name _ args => do
      let func ← parseAggFunc name
      let (sources, colIndex) ← aggColumn schema tables name func args sources
      aggColumns schema tables keys cols sources (aggs ++ [{ func := func, colIndex := colIndex }])
    | expr => do
      let cref ← resolveExprColumn expr schema tables
      if groupKeyContains sources keys cref then aggColumns schema tables keys cols sources aggs
      else fail .error "non-aggregate column must appear in GROUP BY"

/-- The sources of one entry of a select list without aggregates. -/
def plainSources (schema : Schema) (tables : List TableBinding) (col : ResultColumn) :
    Result (List RowSource) :=
  match col.expr with
  | .star =>
    match tables with
    | [tb] =>
      match schema.table tb.name with
      | none => panicked
      | some table => .ok ((List.range table.columnCount).map fun i =>
          .column { tableIdx := 0, colIdx := i })
    | _ => fail .error "* is not supported with JOIN"
  | expr =>
    match resolveExprColumn expr schema tables with
    | .ok cref => .ok [.column cref]
    | .error _ => .ok [.expr expr]

def isFunction : Expr → Bool
  | .function _ _ _ => true
  | _ => false

/-- The sources, and the groups where the query has aggregates. -/
def planSources (select : Select) (schema : Schema) (tables : List TableBinding)
    (hasAggregates : Bool) : Result (List RowSource × Option GroupBySpec) :=
  if hasAggregates then do
    let (sources, keys) ← groupKeys schema tables select.groupBy [] []
    let (sources, aggs) ← aggColumns schema tables keys select.columns sources []
    pure (sources, some { keyIndices := keys, aggs := aggs })
  else do
    let sources ← select.columns.mapM (plainSources schema tables)
    pure (sources.flatten, none)

/-- mirrors sqllite-core/src/compile_select.rs:406-529 -/
def buildSelectPlan (select : Select) (schema : Schema) (tables : List TableBinding) :
    Result SelectPlan := do
  let hasAggregates := select.columns.any fun c => isFunction c.expr
  let (rowSources, groupSpec) ← planSources select schema tables hasAggregates
  let rowWidth := rowSources.length
  let outputWidth := if hasAggregates then select.columns.length else rowWidth
  let sortKeys ← select.orderBy.mapM fun term => do
    let colIndex ← resolveOrderIndex term.expr schema tables select rowSources hasAggregates
    pure ({ colIndex := colIndex, desc := term.desc } : SortKey)
  pure { rowSources := rowSources, rowWidth := rowWidth, outputWidth := outputWidth
         hasAggregates := hasAggregates, groupSpec := groupSpec, sortKeys := sortKeys }

/-! ## The program -/

/-- mirrors sqllite-core/src/compile_select.rs:285-304 -/
def simpleCountStar (select : Select) (src : TableRef Select) : Option Int :=
  match select.groupBy, select.orderBy, src, select.columns with
  | [], [], .table _ _, [col] =>
    match col.expr with
    | .function name _ [.star] => if eqIgnoreAsciiCase name "count" then some 0 else none
    | _ => none
  | _, _, _, _ => none

/-- mirrors sqllite-core/src/compile_select.rs:306-361 -/
def compileSimpleCount (cursor : Int) (schema : Schema) (src : TableRef Select) : Result Program :=
  match src with
  | .table name _ =>
    match schema.table name with
    | none => fail .error s!"no such table: {name}"
    | some _ => .ok
      { readOnly := true
        nReg := 8
        insns := [
          { opcode := .init, p2 := 1 },
          { opcode := .openRead, p1 := cursor, p4 := .string name },
          { opcode := .count, p2 := cursor },
          { opcode := .resultRow, p1 := 1 },
          { opcode := .halt }] }
  | _ => panicked

/-- What a `SELECT` over several tables needs: the condition of its join. -/
def joinCondition (tables : List TableBinding) (join : Option JoinInfo) : Result (Option Expr) :=
  if tables.length ≤ 1 then .ok none
  else match join with
    | none => fail .error "JOIN requires an ON clause"
    | some info =>
      if info.joinType ≠ .inner then fail .error "only INNER JOIN is supported"
      else match info.on with
        | none => fail .error "JOIN requires an ON clause"
        | some on => .ok (some on)

/-- The condition, the row and its result: what is done for each row, or pair of rows. -/
def compileBody (prog : Program) (select : Select) (schema : Schema) (tables : List TableBinding)
    (plan : SelectPlan) (needsBuffer : Bool) : Program × Option Nat :=
  let (prog, whereSkip) := compileOptionalWhere prog select schema tables 1
  let prog := prog.emitAll (compileRowLoad plan tables schema)
  (emitScanResult prog plan needsBuffer, whereSkip)

/-- `if let Some(addr) = addr { prog.patch_p2(addr, target); }`. -/
def patchOpt (prog : Program) (addr : Option Nat) (target : Int) : Program :=
  match addr with
  | some addr => prog.patchP2 addr target
  | none => prog

/-- The two nested scans of a join. -/
def compileJoin (prog : Program) (select : Select) (schema : Schema) (tables : List TableBinding)
    (plan : SelectPlan) (needsBuffer : Bool) (on : Expr) (outer inner : TableBinding)
    (outerRewind : Nat) : Program :=
  let innerRewind := prog.here
  let prog := prog.emit { opcode := .rewind, p1 := inner.cursor }
  let prog := prog.emitAll (compilePred on schema tables 1)
  let onSkip := prog.here
  let prog := prog.emit { opcode := .ifNot, p1 := 1 }
  let (prog, whereSkip) := compileBody prog select schema tables plan needsBuffer
  let innerNext := prog.here
  let prog := patchOpt (prog.patchP2 onSkip innerNext) whereSkip innerNext
  let prog := prog.emit { opcode := .last, p1 := inner.cursor, p2 := (innerRewind + 1 : Nat) }
  let outerNext := prog.here
  let prog := prog.patchP2 innerRewind outerNext
  prog.emit { opcode := .last, p1 := outer.cursor, p2 := (outerRewind + 1 : Nat) }

/-- The scan of one table. -/
def compileScan (prog : Program) (select : Select) (schema : Schema) (tables : List TableBinding)
    (plan : SelectPlan) (needsBuffer : Bool) (outer : TableBinding) (outerRewind : Nat) : Program :=
  let (prog, whereSkip) := compileBody prog select schema tables plan needsBuffer
  let loopNext := prog.here
  let prog := patchOpt prog whereSkip loopNext
  prog.emit { opcode := .last, p1 := outer.cursor, p2 := (outerRewind + 1 : Nat) }

/-- What follows the scan: groups, order and the buffered rows. -/
def compileResults (prog : Program) (select : Select) (plan : SelectPlan) (needsBuffer : Bool) :
    Program :=
  let prog := match plan.hasAggregates, plan.groupSpec with
    | true, some spec => prog.emit { opcode := .groupBy, p1 := plan.rowWidth, p4 := .groupBy spec }
    | _, _ => prog
  let prog := if select.orderBy.isEmpty then prog
    else prog.emit { opcode := .sort, p4 := .sortKeys plan.sortKeys }
  if needsBuffer then
    let rewindAddr := prog.here
    let prog := prog.emit { opcode := .bufferRewind }
    let emitRow := prog.here
    let prog := prog.emit { opcode := .bufferNext }
    let prog := prog.emit { opcode := .resultRow, p1 := plan.outputWidth }
    let prog := prog.emit { opcode := .goto, p2 := emitRow }
    let haltAddr := prog.here
    (prog.patchP2 rewindAddr haltAddr).patchP2 emitRow haltAddr
  else prog

/-- mirrors sqllite-core/src/compile_select.rs:38-261 -/
def compileSelect (select : Select) (schema : Schema) : Result Program :=
  match select.«from» with
  | none => fail .error "SELECT requires a FROM clause"
  | some src =>
    match simpleCountStar select src with
    | some cursor => compileSimpleCount cursor schema src
    | none => do
      let (tables, join, _) ← collectFrom schema src [] none 0
      let on ← joinCondition tables join
      let plan ← buildSelectPlan select schema tables
      let needsBuffer := !select.groupBy.isEmpty || !select.orderBy.isEmpty || plan.hasAggregates
      let prog := { Program.new with readOnly := true, nReg := 32 }
      let prog := prog.emit { opcode := .init, p2 := 1 }
      let prog := prog.emitAll (tables.map fun table =>
        { opcode := .openRead, p1 := table.cursor, p4 := .string table.name })
      let outerRewind := prog.here
      let prog ← match on, tables with
        | _, [] => panicked
        | some on, outer :: inner :: _ =>
          let prog := prog.emit { opcode := .rewind, p1 := outer.cursor }
          pure (compileJoin prog select schema tables plan needsBuffer on outer inner outerRewind)
        | _, outer :: _ =>
          let prog := prog.emit { opcode := .rewind, p1 := outer.cursor }
          pure (compileScan prog select schema tables plan needsBuffer outer outerRewind)
      let prog := prog.patchP2 outerRewind prog.here
      pure ((compileResults prog select plan needsBuffer).emit { opcode := .halt })

end

end Sqllite
