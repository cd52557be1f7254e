import Sqllite.L2Storage.Btree
import Sqllite.L3Sql.Schema

/-!
# The catalog and its B-tree (`schema.rs`)

A connection and its statements share one pager and one catalog: `Db`. A B-tree
or a cursor in use is a root page or a position; the pager is put in for the
call and taken out again behind it.

A scan may visit any number of rows, so its loop has fuel.
-/
namespace Sqllite
open Lib Lib.Run Lib.Span

/-- What a connection shares with its statements. -/
structure Db where
  pager : Pager
  schema : Schema

abbrev DbM (α : Type) := Prog SqlliteError Db α

/-- A cursor without the pager it shares. -/
structure SavedCursor where
  rootPage : Nat
  flags : BtreeFlags
  stack : List CursorFrame
  leafPgno : Nat
  cellIndex : Nat
  endOfTable : Bool
  currentKey : Option Int
  currentRecord : Option Bytes

/-- The cursor on its pager. -/
def SavedCursor.attach (c : SavedCursor) (p : Pager) : BtreeCursor where
  btree := { pager := p, rootPage := c.rootPage, flags := c.flags }
  stack := c.stack
  leafPgno := c.leafPgno
  cellIndex := c.cellIndex
  endOfTable := c.endOfTable
  currentKey := c.currentKey
  currentRecord := c.currentRecord

/-- The cursor without its pager. -/
def BtreeCursor.detach (c : BtreeCursor) : SavedCursor where
  rootPage := c.btree.rootPage
  flags := c.btree.flags
  stack := c.stack
  leafPgno := c.leafPgno
  cellIndex := c.cellIndex
  endOfTable := c.endOfTable
  currentKey := c.currentKey
  currentRecord := c.currentRecord

@[simp] theorem BtreeCursor.attach_detach (c : BtreeCursor) :
    c.detach.attach c.btree.pager = c := rfl

@[simp] theorem SavedCursor.detach_attach (c : SavedCursor) (p : Pager) :
    (c.attach p).detach = c := rfl

/-- `btree.cursor()` on a table's B-tree. -/
def tableCursor (rootPage : Nat) : SavedCursor where
  rootPage := rootPage
  flags := tableFlags
  stack := []
  leafPgno := rootPage
  cellIndex := 0
  endOfTable := false
  currentKey := none
  currentRecord := none

theorem tableCursor_attach (rootPage : Nat) (p : Pager) : (tableCursor rootPage).attach p =
    Btree.cursor { pager := p, rootPage := rootPage, flags := tableFlags } := rfl

/-! ## Scans -/

namespace BtreeCursor

/-- `loop { a = f(a, cursor)?; if !cursor.next()? { break; } }`. -/
def scanFrom {α : Type} (f : α → BtreeCursor → Result α) : Nat → α → CursorM α
  | 0, _ => lift panicked
  | n + 1, a => do
    let c ← get
    let a ← lift (f a c)
    let more ← next
    if more then scanFrom f n a else pure a

/-- `if cursor.first()? { loop { .. } }` around the same loop. -/
def scan {α : Type} (f : α → BtreeCursor → Result α) (fuel : Nat) (a : α) : CursorM α := do
  let found ← first
  if found then scanFrom f fuel a else pure a

/-- The same loop up to the first row that `f` answers for. -/
def findFrom {α : Type} (f : BtreeCursor → Result (Option α)) : Nat → CursorM (Option α)
  | 0 => lift panicked
  | n + 1 => do
    let c ← get
    match ← lift (f c) with
    | some a => pure (some a)
    | none =>
      let more ← next
      if more then findFrom f n else pure none

/-- `if cursor.first()? { loop { .. } }` around it. -/
def find {α : Type} (f : BtreeCursor → Result (Option α)) (fuel : Nat) : CursorM (Option α) := do
  let found ← first
  if found then findFrom f fuel else pure none

/-- `max_id = max_id.max(cursor.key())`, where there is a key. -/
def maxKey (maxId : Int) (c : BtreeCursor) : Result Int :=
  match c.currentKey with
  | some id => .ok (max maxId id)
  | none => .ok maxId

/-- `max_id + 1` over the rows of a table, overflow checked. -/
def nextRowid (fuel : Nat) : CursorM Int := do
  let maxId ← scan maxKey fuel 0
  if maxId + 1 < 2 ^ 63 then pure (maxId + 1) else lift panicked

end BtreeCursor

/-! ## Changes of the catalog -/

namespace Db

/-- `self.pager`. -/
def onPager {α : Type} (m : PagerM α) : DbM α :=
  zoom (·.pager) (fun p s => { s with pager := p }) m

/-- A cursor that is dropped behind the call. -/
def onCursor {α : Type} (c : SavedCursor) (m : CursorM α) : DbM α :=
  zoom (fun s => c.attach s.pager) (fun c s => { s with pager := c.btree.pager }) m

/-- A cursor that is used again: it is returned with the answer. -/
def onCursorKeep {α : Type} (c : SavedCursor) (m : CursorM α) : DbM (α × SavedCursor) :=
  onCursor c do
    let a ← m
    let c ← get
    pure (a, c.detach)

/-- A B-tree, with its root page behind the call. -/
def onBtree {α : Type} (rootPage : Nat) (flags : BtreeFlags) (m : BtreeM α) : DbM (α × Nat) :=
  zoom (fun s => { pager := s.pager, rootPage := rootPage, flags := flags })
    (fun b s => { s with pager := b.pager }) do
    let a ← m
    let b ← get
    pure (a, b.rootPage)

/-- `self.schema_btree`, whose root page may move. -/
def onSchemaBtree {α : Type} (rootPage : Nat) (m : BtreeM α) : DbM α :=
  zoom (fun s => { pager := s.pager, rootPage := rootPage, flags := tableFlags })
    (fun b s => { s with
      pager := b.pager
      schema := { s.schema with schemaBtree := some b.rootPage } }) m

/-- `self.schema_btree.as_ref().ok_or_else(..)?`. -/
def schemaRoot : DbM Nat := do
  let s ← get
  match s.schema.schemaBtree with
  | some root => pure root
  | none => failM .internal "schema btree not initialized"

/-- `self.bump_cookie()`. -/
def bumpCookie : DbM Unit := do
  let s ← get
  let schema ← lift s.schema.bumpCookie
  set { s with schema := schema }

/-- mirrors sqllite-core/src/schema.rs:250-264 -/
def nextSchemaRowid (fuel root : Nat) : DbM Int :=
  onCursor (tableCursor root) (BtreeCursor.nextRowid fuel)

/-- mirrors sqllite-core/src/schema.rs:223-248 -/
def insertSchemaRow (fuel : Nat) (name objType : String) (rootPage : Nat) (sql : String) :
    DbM Unit := do
  let root ← schemaRoot
  let rowid ← nextSchemaRowid fuel root
  let record ← lift (encodeRecord [.text objType, .text name, .text name,
    .integer (Int64.ofNat rootPage), .text sql])
  onSchemaBtree root (Btree.insert rowid record)

/-- The row of `set_table_root_page` with the new root in it, under its rowid. -/
def schemaRowOf (name : String) (rootPage : Nat) (c : BtreeCursor) :
    Result (Option (Option (Int × List Value))) := do
  let values ← c.values
  match values with
  | objType :: objName :: tblName :: _ :: rest@(_ :: _) =>
    if objType.asText.getD "" = "table" ∧ eqIgnoreAsciiCase (objName.asText.getD "") name then
      let updated := objType :: objName :: tblName :: .integer (Int64.ofNat rootPage) :: rest
      pure (some (c.currentKey.map fun rowid => (rowid, updated)))
    else pure none
  | _ => pure none

section
variable [Unicode]

/-- mirrors sqllite-core/src/schema.rs:93-129 -/
def createTable (fuel : Nat) (create : CreateTable) : DbM Unit := do
  let s ← get
  if (s.schema.table create.name).isSome then
    if create.ifNotExists then pure ()
    else failM .error s!"table {create.name} already exists"
  else do
    let rootPage ← onPager Btree.createTable
    let columns := create.columns.map columnDefToColumn
    let table : Schema.Table :=
      { name := create.name, rootPage := rootPage, columns := columns, rowidAlias := none }
    insertSchemaRow fuel create.name "table" rootPage (createSql create)
    modify fun s => { s with schema := { s.schema with
      tables := s.schema.tables.insert (toLowercase create.name) table } }
    bumpCookie

/-- The key of a row in an index over `columns`. -/
def keyValues (table : Schema.Table) (columns : List String) (values : List Value) : List Value :=
  columns.map fun col => ((table.columnIndex col).bind (values[·]?)).getD .null

/-- The loop of `create_index` from the row the cursor stands on; `root` is the
root page of the index. -/
def indexRows (table : Schema.Table) (columns : List String) : Nat → SavedCursor → Nat → DbM Unit
  | 0, _, _ => lift panicked
  | n + 1, c, root => do
    let root ← match c.currentKey with
      | none => pure root
      | some rowid => do
        let s ← get
        let values ← lift (c.attach s.pager).values
        let key ← lift (encodeRecord (keyValues table columns values))
        let (_, root) ← onBtree root indexFlags (Btree.insertIndex key rowid)
        pure root
    let (more, c) ← onCursorKeep c BtreeCursor.next
    if more then indexRows table columns n c root else pure ()

/-- mirrors sqllite-core/src/schema.rs:132-163 -/
def createIndex (fuel : Nat) (create : CreateIndex) : DbM Unit := do
  let s ← get
  if (s.schema.index create.name).isSome then
    if create.ifNotExists then pure ()
    else failM .error s!"index {create.name} already exists"
  else match s.schema.table create.table with
    | none => failM .error s!"no such table: {create.table}"
    | some table =>
      match create.columns.find? fun col => (table.columnIndex col).isNone with
      | some col => failM .error s!"table {create.table} has no column named {col}"
      | none => do
        let rootPage ← onPager Btree.createIndex
        let (found, c) ← onCursorKeep (tableCursor table.rootPage) BtreeCursor.first
        if found then indexRows table create.columns fuel c rootPage else pure ()
        insertSchemaRow fuel create.name "index" rootPage (createIndexSql create)
        modify fun s => { s with schema := { s.schema with
          indexes := s.schema.indexes.insert (toLowercase create.name)
            { name := create.name, table := create.table, columns := create.columns
              rootPage := rootPage, unique := create.unique } } }
        bumpCookie

/-- mirrors sqllite-core/src/schema.rs:165-179 -/
def dropTable (name : String) (ifExists : Bool) : DbM Unit := do
  let s ← get
  if (s.schema.table name).isNone then
    if ifExists then pure () else failM .error s!"no such table: {name}"
  else do
    set { s with schema := { s.schema with tables := s.schema.tables.erase (toLowercase name) } }
    bumpCookie

/-- mirrors sqllite-core/src/schema.rs:181-221 -/
def setTableRootPage (fuel : Nat) (name : String) (rootPage : Nat) : DbM Unit := do
  let s ← get
  match s.schema.table name with
  | none => pure ()
  | some table =>
    if table.rootPage = rootPage then pure ()
    else do
      set { s with schema := { s.schema with
        tables := s.schema.tables.insert (toLowercase name) { table with rootPage := rootPage } } }
      let root ← schemaRoot
      match ← onCursor (tableCursor root) (BtreeCursor.find (schemaRowOf name rootPage) fuel) with
      | some (some (rowid, updated)) => do
        let record ← lift (encodeRecord updated)
        onSchemaBtree root (Btree.replace rowid record)
      | _ => pure ()

/-! ## Loading -/

/-- mirrors sqllite-core/src/schema.rs:379-395 -/
def registerTableFromCreate (schema : Schema) (create : CreateTable) (rootPage : Nat) : Schema :=
  let table : Schema.Table :=
    { name := create.name, rootPage := rootPage, columns := create.columns.map columnDefToColumn
      rowidAlias := none }
  { schema with tables := schema.tables.insert (toLowercase create.name) table }

/-- `i as u32`. -/
def asU32 (i : Int64) : Nat := (i.toInt % 2 ^ 32).toNat

/-- The loop body of `load_schema_from_btree`; `parseOne` is the SQL parser. -/
def loadRow (parseOne : String → Except String Statement) (schema : Schema) (c : BtreeCursor) :
    Result Schema := do
  let values ← c.values
  match values with
  | objType :: name :: _ :: rootPage :: sql :: _ =>
    let kind := objType.asText.getD ""
    let nameLower := toLowercase (name.asText.getD "")
    let rootPage := asU32 (rootPage.asInteger.getD 0)
    let sql := sql.asText.getD ""
    if sql = "" then pure schema
    else if kind = "table" then
      if nameLower = SCHEMA_TABLE_NAME ∨ nameLower = SCHEMA_TABLE_NAME_LEGACY then pure schema
      else match parseOne sql with
        | .ok (.createTable create) => pure (registerTableFromCreate schema create rootPage)
        | _ => pure schema
    else if kind = "index" then
      match parseOne sql with
      | .ok (.createIndex create) => pure { schema with
          indexes := schema.indexes.insert nameLower
            { name := create.name, table := create.table, columns := create.columns
              rootPage := rootPage, unique := create.unique } }
      | _ => pure schema
    else pure schema
  | _ => pure schema

/-- The columns of the schema table. -/
def schemaColumns : List Column :=
  [("type", .text), ("name", .text), ("tbl_name", .text), ("rootpage", .integer), ("sql", .text)].map
    fun c => { name := c.1, affinity := c.2, notNull := false, primaryKey := false
               autoincrement := false, defaultValue := none }

/-- mirrors sqllite-core/src/schema.rs:331-377 -/
def loadSchemaFromBtree (parseOne : String → Except String Statement) (fuel : Nat) : DbM Unit := do
  let root ← schemaRoot
  let s ← get
  let schema ← onCursor (tableCursor root) (BtreeCursor.scan (loadRow parseOne) fuel s.schema)
  modify fun s => { s with schema := schema }

/-- mirrors sqllite-core/src/schema.rs:266-329 -/
def initSchemaTable (parseOne : String → Except String Statement) (fuel : Nat) : DbM Unit := do
  modify fun s => { s with schema := { s.schema with
    schemaBtree := some ROOT_PAGE
    tables := s.schema.tables.insert (toLowercase SCHEMA_TABLE_NAME)
      { name := SCHEMA_TABLE_NAME, rootPage := ROOT_PAGE, columns := schemaColumns
        rowidAlias := some "rowid" } } }
  loadSchemaFromBtree parseOne fuel

end

end Db

end Sqllite
