import Sqllite.L2Storage.Pager
import Sqllite.L3Sql.Schema

/-!
# `PRAGMA` (`pragma.rs`)

The catalog is only read; what a pragma changes is the pager.
-/
namespace Sqllite
open Lib.Run Lib.Span

abbrev PragmaRow := List Value

/-- mirrors sqllite-core/src/pragma.rs:28-37 -/
def journalModeName : JournalMode → String
  | .delete => "delete"
  | .persist => "persist"
  | .off => "off"
  | .truncate => "truncate"
  | .memory => "memory"
  | .wal => "wal"

/-- mirrors sqllite-core/src/pragma.rs:39-52 -/
def parseJournalMode (s : String) : Result JournalMode :=
  let lower := s.toLower
  if lower = "delete" then .ok .delete
  else if lower = "persist" then .ok .persist
  else if lower = "off" then .ok .off
  else if lower = "truncate" then .ok .truncate
  else if lower = "memory" then .ok .memory
  else if lower = "wal" then .ok .wal
  else fail .error s!"unknown journal mode: {s}"

/-- mirrors sqllite-core/src/pragma.rs:54-64 -/
def executeJournalMode (value : Option String) : PagerM (List PragmaRow) :=
  match value with
  | some modeStr => do
    let mode ← lift (parseJournalMode modeStr)
    let applied ← Pager.setJournalMode mode
    pure [[.text (journalModeName applied)]]
  | none => do
    let s ← get
    pure [[.text (journalModeName s.journalMode)]]

/-- `s.parse::<u32>()`. -/
def parseU32 (s : String) : Option Nat := do
  let cs := match s.toList with
    | '+' :: cs => cs
    | cs => cs
  let n ← digits? cs
  if n < 2 ^ 32 then some n else none

/-- `size.is_power_of_two()`, for a `u32`. -/
def isPowerOfTwo (size : Nat) : Bool := (List.range 32).any fun k => size = 2 ^ k

/-- mirrors sqllite-core/src/pragma.rs:66-82 -/
def executePageSize (value : Option String) : PagerM (List PragmaRow) :=
  match value with
  | some sizeStr =>
    match parseU32 sizeStr with
    | none => failM .error "invalid page_size value"
    | some size =>
      if size < MIN_PAGE_SIZE ∨ size > MAX_PAGE_SIZE ∨ ¬ isPowerOfTwo size then
        failM .error "page_size must be a power of two between 512 and 65536"
      else do
        let applied ← Pager.setPageSize size
        pure [[.integer (Int64.ofNat applied)]]
  | none => do
    let s ← get
    pure [[.integer (Int64.ofNat s.pageSize)]]

/-- The row of `table_info` for one column. -/
def columnInfo (cid : Nat) (col : Column) : PragmaRow :=
  [.integer (Int64.ofNat cid), .text col.name, .text (String.singleton col.affinity.asChar.toUpper),
    Value.ofBool col.notNull, col.defaultValue.getD .null, Value.ofBool col.primaryKey]

/-- mirrors sqllite-core/src/pragma.rs:84-103 -/
def executeTableInfo [Unicode] (value : Option String) (schema : Schema) :
    Result (List PragmaRow) :=
  match value with
  | none => fail .error "table_info requires a table name"
  | some name =>
    match schema.table name with
    | none => fail .error s!"no such table: {name}"
    | some table => .ok (table.columns.mapIdx columnInfo)

/-- mirrors sqllite-core/src/pragma.rs:11-26 -/
def executePragma [Unicode] (name : String) (value : Option String) (schema : Schema) :
    PagerM (List PragmaRow) :=
  let lower := name.toLower
  if lower = "journal_mode" then executeJournalMode value
  else if lower = "page_size" then executePageSize value
  else if lower = "table_info" then lift (executeTableInfo value schema)
  else failM .error s!"unknown or unsupported pragma: {lower}"

/-- mirrors sqllite-core/src/pragma.rs:105-114 -/
def pragmaValueFromExpr : Expr → String
  | .string s => s
  | .ident s => s
  | .integer i => toString i
  | .real r => displayF64 (Float.ofBits r)
  | _ => ""

/-- Two hexadecimal digits. -/
def hexByte (b : UInt8) : String :=
  String.ofList [(b.toNat / 16).digitChar, (b.toNat % 16).digitChar]

/-- mirrors sqllite-core/src/pragma.rs:122-139 and connection.rs:255-269, which are alike -/
def valueToString : Value → String
  | .blob b => "X'" ++ String.join (b.map hexByte) ++ "'"
  | v => v.toText

/-- mirrors sqllite-core/src/pragma.rs:116-120 -/
def pragmaRowsToStrings (rows : List PragmaRow) : List String :=
  rows.flatMap fun row => row.map valueToString

end Sqllite
