import Sqllite.L3Sql.Compile
import Sqllite.L4Vdbe.Exec

/-!
# Connections and prepared statements (`connection.rs`)

A prepared statement is a `StatementHandle`, run on the connection it belongs
to. The path of a connection is the file of its pager. `fuel` bounds the rounds
of the virtual machine and the rows of each scan.
-/
namespace Sqllite
open Lib Lib.Run Lib.Span Lib.Machine

/-- mirrors sqllite-core/src/connection.rs:17-26 -/
structure Connection extends Db where
  lastError : String
  changes : Int
  lastRowid : Int
  inTransaction : Bool

abbrev ConnM (α : Type) := Prog SqlliteError Connection α

/-- mirrors sqllite-core/src/connection.rs:202-209, without what it shares -/
structure StatementHandle where
  vdbe : Vdbe
  autocommit : Bool

/-- A statement on its connection. -/
structure Prepared where
  stmt : StatementHandle
  conn : Connection

abbrev StmtM (α : Type) := Prog SqlliteError Prepared α

namespace StatementHandle

/-- `self.vdbe`. -/
def onVdbe {α : Type} (m : VdbeM α) : StmtM α :=
  zoom (fun s => { toVdbe := s.stmt.vdbe, toDb := s.conn.toDb })
    (fun v s => { stmt := { s.stmt with vdbe := v.toVdbe }, conn := { s.conn with toDb := v.toDb } }) m

/-- `self.connection_pager`. -/
def onPager {α : Type} (m : PagerM α) : StmtM α :=
  zoom (·.conn.pager) (fun p s => { s with conn := { s.conn with pager := p } }) m

/-- mirrors sqllite-core/src/connection.rs:212-220 -/
def step [Unicode] (fuel : Nat) : StmtM ResultCode := do
  let rc ← onVdbe (Vdbe.step fuel)
  let s ← get
  if rc = .done ∧ s.stmt.autocommit ∧ s.conn.pager.inTransaction then do
    attempt (onPager Pager.commit)
    pure rc
  else pure rc

/-- The values of the row a step returned. -/
def row (stmt : StatementHandle) : List Value :=
  (List.range stmt.vdbe.columnCount).filterMap stmt.vdbe.columnValue

/-- One round of the loop of `exec_sql`; the rows so far are `results`. -/
def fetchAll [Unicode] (fuel : Nat) : Nat → List String → StmtM (List String)
  | 0, _ => lift panicked
  | n + 1, results => do
    let rc ← step fuel
    match rc with
    | .row => do
      let s ← get
      fetchAll fuel n (results ++ s.stmt.row.map valueToString)
    | .done => pure results
    | code => lift (fail code "")

/-- The loop of `exec`; `lastError` is that of the connection. -/
def drive [Unicode] (fuel : Nat) (lastError : String) : Nat → StmtM Unit
  | 0 => lift panicked
  | n + 1 => do
    let rc ← step fuel
    match rc with
    | .row => drive fuel lastError n
    | .done => pure ()
    | code => if code.isOk then pure () else lift (fail code lastError)

end StatementHandle

namespace Connection

/-- `self.pager`. -/
def onPager {α : Type} (m : PagerM α) : ConnM α :=
  zoom (·.pager) (fun p s => { s with pager := p }) m

/-- The catalog and the pager. -/
def onDb {α : Type} (m : DbM α) : ConnM α := zoom (·.toDb) (fun d s => { s with toDb := d }) m

/-- A statement that is dropped behind the call; it is returned with the answer. -/
def onStatement {α : Type} (stmt : StatementHandle) (m : StmtM α) : ConnM (α × StatementHandle) :=
  zoom (fun s => { stmt := stmt, conn := s }) (fun p _ => p.conn) do
    let a ← m
    let p ← get
    pure (a, p.stmt)

/-- mirrors sqllite-core/src/connection.rs:83-94 -/
def prepare [Unicode] (sql : Parsed) : ConnM StatementHandle := do
  let s ← get
  let program ← lift (compile sql s.schema)
  pure { vdbe := Vdbe.new program, autocommit := !s.inTransaction }

/-- mirrors sqllite-core/src/connection.rs:65-81 -/
def exec [Unicode] (fuel : Nat) (sql : Parsed) : ConnM Unit := do
  let stmt ← prepare sql
  let s ← get
  let ((), stmt) ← onStatement stmt (StatementHandle.drive fuel s.lastError fuel)
  modify fun s => { s with changes := stmt.vdbe.changes, lastRowid := stmt.vdbe.lastRowid }

/-- mirrors sqllite-core/src/connection.rs:96-118 -/
def execSql [Unicode] (fuel : Nat) (sql : Parsed) : ConnM (List String) := do
  let stmt ← prepare sql
  let (results, stmt) ← onStatement stmt (StatementHandle.fetchAll fuel fuel [])
  modify fun s => { s with changes := stmt.vdbe.changes, lastRowid := stmt.vdbe.lastRowid }
  pure results

/-- mirrors sqllite-core/src/connection.rs:128-133 -/
def commit : ConnM Unit := do
  onPager Pager.commit
  modify fun s => { s with inTransaction := false }

/-- mirrors sqllite-core/src/connection.rs:135-139 -/
def rollback : ConnM Unit := do
  onPager Pager.rollback
  modify fun s => { s with inTransaction := false }

/-- `self.pager.begin()?`, a change of the catalog, `self.pager.commit()?`. -/
def executeDdl (change : DbM Unit) : ConnM (List String) := do
  onPager Pager.begin
  onDb change
  onPager Pager.commit
  pure []

/-- mirrors sqllite-core/src/connection.rs:149-199 -/
def execute [Unicode] (fuel : Nat) (sql : Parsed) : ConnM (List String) :=
  match sql with
  | .error e => throw (.err (.parse e))
  | .ok (.createTable create) => executeDdl (Db.createTable fuel create)
  | .ok (.createIndex create) => executeDdl (Db.createIndex fuel create)
  | .ok (.dropTable drop) => executeDdl (Db.dropTable drop.name drop.ifExists)
  | .ok .begin => do
    onPager Pager.begin
    modify fun s => { s with inTransaction := true }
    pure []
  | .ok .commit => do
    commit
    pure []
  | .ok .rollback => do
    rollback
    pure []
  | .ok (.pragma p) => do
    let s ← get
    let rows ← onPager (executePragma p.name (p.value.map pragmaValueFromExpr) s.schema)
    pure (pragmaRowsToStrings rows)
  | .ok stmt => execSql fuel (.ok stmt)

/-- The files of the path are those of the state's pager; the handle of a
connection is its state. `parseOne` is the SQL parser.
mirrors sqllite-core/src/connection.rs:29-59 -/
def «open» [Unicode] (parseOne : String → Parsed) (fuel : Nat) (memory : Bool) : ConnM Unit := do
  onPager (Pager.open { memory := memory })
  modify fun s => { s with
    schema := Schema.new, lastError := "", changes := 0, lastRowid := 0, inTransaction := false }
  onDb (Db.initSchemaTable parseOne fuel)

end Connection

end Sqllite
