import Mathlib.Data.List.Sort
import Sqllite.L1Encoding.Record
import Sqllite.L1Encoding.Header
import Sqllite.Lib.Slotted

/-!
# B-tree pages (`storage/btree.rs`)

The functions of the B-tree that work on the bytes of one page: the four cell
formats, insertion into a page with room (`tryInsertCell`), the layout of a page
afresh (`rebuildPage`), lookup, update in place and removal. The leaf, interior,
table and index variants of the source differ in the place of the offset array
and in how cells compare.
-/
namespace Sqllite
open Lib.Run Lib.Span Lib.Slotted

/-! ## Page geometry -/

/-- mirrors sqllite-core/src/storage/btree.rs:1376-1382 -/
def pageHeaderOffset (pgno : Nat) : Nat := if pgno = ROOT_PAGE then DATABASE_HEADER_SIZE else 0

/-- mirrors sqllite-core/src/storage/btree.rs:1288-1290 -/
def leafLayout (h : Nat) : Layout where
  count := h + 3
  content := h + 5
  ptrs := h + 8
  count_content := Nat.le_refl _
  content_ptrs := by omega

/-- mirrors sqllite-core/src/storage/btree.rs:1292-1294 -/
def interiorLayout (h : Nat) : Layout where
  count := h + 3
  content := h + 5
  ptrs := h + 12
  count_content := Nat.le_refl _
  content_ptrs := by omega

/-! ## Cells -/

/-- mirrors sqllite-core/src/storage/btree.rs:1384-1387 -/
def readCellRowid (data : Bytes) (offset : Nat) : Result (Int × Nat) := do
  let (rowid, n) ← readVarint data offset
  pure (asI64 rowid, offset + n)

/-- The record of a table cell, from the offset behind its row id. -/
def readPayload (data : Bytes) (payloadOff : Nat) : Result Bytes := do
  let (payloadLen, n) ← readVarint data payloadOff
  slice data (payloadOff + n) (payloadOff + n + payloadLen)

/-- mirrors sqllite-core/src/storage/btree.rs:1389-1393 -/
def readInteriorTableCell (data : Bytes) (offset : Nat) : Result (Nat × Int) := do
  let child ← readU32Be data offset
  let (key, _) ← readVarint data (offset + 4)
  pure (child, asI64 key)

/-- mirrors sqllite-core/src/storage/btree.rs:1395-1401 -/
def readInteriorIndexCell (data : Bytes) (offset : Nat) : Result (Nat × Bytes) := do
  let child ← readU32Be data offset
  let (len, n) ← readVarint data (offset + 4)
  let key ← slice data (offset + 4 + n) (offset + 4 + n + len)
  pure (child, key)

/-- mirrors sqllite-core/src/storage/btree.rs:1403-1414 -/
def readIndexPayload (data : Bytes) (offset : Nat) : Result Bytes := do
  let (payloadLen, n) ← readVarint data offset
  let stop ← usizeAdd (offset + n) payloadLen
  if stop > data.length then fail .corrupt "truncated index cell"
  else slice data (offset + n) stop

/-- The loop of `split_index_payload`, `key_len` counting down. -/
def splitIndexPayloadGo (payload : Bytes) : Nat → Result (Bytes × Int)
  | 0 => fail .corrupt "invalid index payload"
  | keyLen + 1 =>
    match recordByteLength (payload.take (keyLen + 1)) with
    | .error .panic => panicked
    | .error (.err _) => splitIndexPayloadGo payload keyLen
    | .ok _ => do
      let (rowid, n) ← readVarint payload (keyLen + 1)
      if keyLen + 1 + n = payload.length then pure (payload.take (keyLen + 1), asI64 rowid)
      else splitIndexPayloadGo payload keyLen

/-- mirrors sqllite-core/src/storage/btree.rs:1416-1430 -/
def splitIndexPayload (payload : Bytes) : Result (Bytes × Int) :=
  splitIndexPayloadGo payload (payload.length - 1)

/-- mirrors sqllite-core/src/storage/btree.rs:1338-1347 -/
def buildTableCell (key : Int) (record : Bytes) : Result Bytes := do
  let k ← writeVarint (asU64 key)
  let n ← writeVarint record.length
  pure (k ++ (n ++ record))

/-- mirrors sqllite-core/src/storage/btree.rs:1349-1356 -/
def buildIndexCell (payload : Bytes) : Result Bytes := do
  let n ← writeVarint payload.length
  pure (n ++ payload)

/-- mirrors sqllite-core/src/storage/btree.rs:1358-1365 -/
def buildInteriorTableCell (child : Nat) (key : Int) : Result Bytes := do
  let k ← writeVarint (asU64 key)
  pure (be32 child ++ k)

/-- mirrors sqllite-core/src/storage/btree.rs:1367-1375 -/
def buildInteriorIndexCell (child : Nat) (key : Bytes) : Result Bytes := do
  let n ← writeVarint key.length
  pure (be32 child ++ (n ++ key))

/-! ## Insertion into a page -/

/-- The first of the next `n` entries, from `i` on, whose cell the new one goes
before; behind them all if there is none. -/
def findSlot (L : Layout) (data : Bytes) (before : Nat → Result Bool) : Nat → Nat → Result Nat
  | 0, i => .ok i
  | n + 1, i => do
    let ptr ← readU16Be data (L.ptr i)
    let b ← before ptr
    if b then pure i else findSlot L data before n (i + 1)

/-- Moves `k` entries from `idx` on one place up, the last one first. -/
def shiftUp (L : Layout) (idx : Nat) : Nat → Bytes → Result Bytes
  | 0, data => .ok data
  | k + 1, data => do
    let ptr ← readU16Be data (L.ptr (idx + k))
    let data ← writeU16Be data (L.ptr (idx + k + 1)) ptr
    shiftUp L idx k data

/-- The four `try_insert_*` functions; `none` is `Ok(false)`, no room. -/
def tryInsertCell (L : Layout) (before : Nat → Result Bool) (data cell : Bytes) :
    Result (Option Bytes) := do
  let cellCount ← readU16Be data L.count
  let insertIdx ← findSlot L data before cellCount 0
  let minPtr := L.ptr (cellCount + 1) + 1
  let contentStart ← readU16Be data L.content
  let newContentStart := contentStart - cell.length
  if newContentStart < minPtr then pure none
  else do
    let data ← copyInto data newContentStart cell
    let data ← shiftUp L insertIdx (cellCount - insertIdx) data
    let data ← writeU16Be data (L.ptr insertIdx) newContentStart
    let data ← writeU16Be data L.content newContentStart
    let data ← writeU16Be data L.count (cellCount + 1)
    pure (some data)

/-- Whether a row id goes in front of the leaf cell at `ptr`. -/
def beforeLeafCell (data : Bytes) (key : Int) (ptr : Nat) : Result Bool := do
  let (rowid, _) ← readCellRowid data ptr
  pure (key < rowid)

/-- mirrors sqllite-core/src/storage/btree.rs:467-509 -/
def tryInsertLeafCell (data : Bytes) (h : Nat) (cell : Bytes) (key : Int) :
    Result (Option Bytes) :=
  tryInsertCell (leafLayout h) (beforeLeafCell data key) data cell

/-- mirrors sqllite-core/src/storage/btree.rs:511-552 -/
def tryInsertLeafCellIndex (data : Bytes) (h : Nat) (cell divider : Bytes) :
    Result (Option Bytes) :=
  tryInsertCell (leafLayout h) (fun ptr => do
    let existing ← readIndexPayload data ptr
    pure (divider < existing)) data cell

/-- Whether a divider goes in front of the interior cell at `ptr`. -/
def beforeInteriorCell (data : Bytes) (key : Int) (ptr : Nat) : Result Bool := do
  let (_, cellKey) ← readInteriorTableCell data ptr
  pure (key ≤ cellKey)

/-- mirrors sqllite-core/src/storage/btree.rs:554-595 -/
def tryInsertInteriorCellTable (data : Bytes) (h : Nat) (cell : Bytes) (key : Int) :
    Result (Option Bytes) :=
  tryInsertCell (interiorLayout h) (beforeInteriorCell data key) data cell

/-- mirrors sqllite-core/src/storage/btree.rs:597-638 -/
def tryInsertInteriorCellIndex (data : Bytes) (h : Nat) (cell divider : Bytes) :
    Result (Option Bytes) :=
  tryInsertCell (interiorLayout h) (fun ptr => do
    let (_, cellKey) ← readInteriorIndexCell data ptr
    pure (¬ cellKey < divider)) data cell

/-! ## A page laid out afresh -/

/-- The cells put down from the end of the page, the last one first: the page,
the offset of the first cell, and the offsets. -/
def placeCells (data : Bytes) : List Bytes → Result (Bytes × Nat × List Nat)
  | [] => .ok (data, data.length, [])
  | cell :: cells => do
    let (data, contentStart, ptrs) ← placeCells data cells
    if contentStart < cell.length then panicked
    else do
      let contentStart := contentStart - cell.length
      let data ← copyInto data contentStart cell
      pure (data, contentStart, contentStart :: ptrs)

/-- The offsets written from entry `i` on. -/
def writePtrs (L : Layout) : List Nat → Nat → Bytes → Result Bytes
  | [], _, data => .ok data
  | ptr :: ptrs, i, data => do
    let data ← writeU16Be data (L.ptr i) ptr
    writePtrs L ptrs (i + 1) data

/-- The rightmost child, where the page has one. -/
def writeRightmost (h : Nat) (rightmost : Option Nat) (data : Bytes) : Result Bytes :=
  match rightmost with
  | none => .ok data
  | some r => writeU32Be data (h + 8) r

/-- The four `rebuild_*_page` functions. -/
def rebuildPage (L : Layout) (h : Nat) (rightmost : Option Nat) (data : Bytes)
    (cells : List Bytes) : Result Bytes := do
  let data ← copyInto data (h + 1) [0]
  let data ← copyInto data (h + 2) [0]
  let data ← writeU16Be data (h + 3) cells.length
  let data ← copyInto data (h + 7) [0]
  let data ← writeRightmost h rightmost data
  let (data, contentStart, ptrs) ← placeCells data cells
  let data ← writeU16Be data (h + 5) contentStart
  writePtrs L ptrs 0 data

/-- mirrors sqllite-core/src/storage/btree.rs:837-864 -/
def rebuildLeafTablePage (data : Bytes) (h : Nat) (cells : List (Int × Bytes)) : Result Bytes :=
  rebuildPage (leafLayout h) h none data (cells.map (·.2))

/-- mirrors sqllite-core/src/storage/btree.rs:866-893 -/
def rebuildLeafIndexPage (data : Bytes) (h : Nat) (cells : List Bytes) : Result Bytes :=
  rebuildPage (leafLayout h) h none data cells

/-- mirrors sqllite-core/src/storage/btree.rs:895-928 -/
def rebuildInteriorTablePage (data : Bytes) (h : Nat) (cells : List Bytes) (rightmost : Nat) :
    Result Bytes :=
  rebuildPage (interiorLayout h) h (some rightmost) data cells

/-- mirrors sqllite-core/src/storage/btree.rs:930-938 -/
def rebuildInteriorIndexPage (data : Bytes) (h : Nat) (cells : List Bytes) (rightmost : Nat) :
    Result Bytes :=
  rebuildInteriorTablePage data h cells rightmost

/-! ## Cells of a page -/

/-- The first of the next `n` entries of the offset array, from `i` on, with a
cell that `f` answers for. -/
def findCell {α : Type} (L : Layout) (data : Bytes) (f : Nat → Nat → Result (Option α)) :
    Nat → Nat → Result (Option α)
  | 0, _ => .ok none
  | n + 1, i => do
    let ptr ← readU16Be data (L.ptr i)
    match ← f i ptr with
    | some a => pure (some a)
    | none => findCell L data f n (i + 1)

/-- `f` of the next `n` cells from entry `i` on. -/
def collectCells {α : Type} (L : Layout) (data : Bytes) (f : Nat → Result α) :
    Nat → Nat → Result (List α)
  | 0, _ => .ok []
  | n + 1, i => do
    let ptr ← readU16Be data (L.ptr i)
    let a ← f ptr
    let rest ← collectCells L data f n (i + 1)
    pure (a :: rest)

/-- mirrors sqllite-core/src/storage/btree.rs:410-420; the child and its slot, as
`descend_for_key` keeps it. -/
def findChildPageTable (data : Bytes) (h : Nat) (key : Int) : Result (Nat × Nat) := do
  let cellCount ← readU16Be data (h + 3)
  let found ← findCell (interiorLayout h) data (fun i ptr => do
    let (child, cellKey) ← readInteriorTableCell data ptr
    pure (if key ≤ cellKey then some (child, i) else none)) cellCount 0
  match found with
  | some c => pure c
  | none => do
    let child ← readU32Be data (h + 8)
    pure (child, cellCount)

/-- mirrors sqllite-core/src/storage/btree.rs:422-437 -/
def findChildPageIndex (data : Bytes) (h : Nat) (key : Bytes) : Result (Nat × Nat) := do
  let cellCount ← readU16Be data (h + 3)
  let found ← findCell (interiorLayout h) data (fun i ptr => do
    let (child, cellKey) ← readInteriorIndexCell data ptr
    pure (if cellKey < key then none else some (child, i))) cellCount 0
  match found with
  | some c => pure c
  | none => do
    let child ← readU32Be data (h + 8)
    pure (child, cellCount)

/-- The child of the interior cell at `ptr`. -/
def childOfCell (data : Bytes) (h ptr : Nat) : Result Nat := do
  let pageType ← byteAt data h
  if pageType = PAGE_TYPE_INTERIOR_TABLE then do
    let (child, _) ← readInteriorTableCell data ptr
    pure child
  else do
    let (child, _) ← readInteriorIndexCell data ptr
    pure child

/-- mirrors sqllite-core/src/storage/btree.rs:439-460 -/
def childPageAtSlot (data : Bytes) (h slot : Nat) : Result Nat := do
  let cellCount ← readU16Be data (h + 3)
  if slot < cellCount then do
    let ptr ← readU16Be data ((interiorLayout h).ptr slot)
    childOfCell data h ptr
  else if slot = cellCount then readU32Be data (h + 8)
  else fail .corrupt "invalid child slot"

/-- mirrors sqllite-core/src/storage/btree.rs:940-956 -/
def findCellInPageTable (data : Bytes) (h : Nat) (key : Int) : Result (Option Int) := do
  let cellCount ← readU16Be data (h + 3)
  findCell (leafLayout h) data (fun _ ptr => do
    let (rowid, _) ← readCellRowid data ptr
    pure (if rowid = key then some rowid else none)) cellCount 0

/-- mirrors sqllite-core/src/storage/btree.rs:958-973 -/
def findCellInPageIndex (data : Bytes) (h : Nat) (divider : Bytes) : Result Bool := do
  let cellCount ← readU16Be data (h + 3)
  let found ← findCell (leafLayout h) data (fun _ ptr => do
    let existing ← readIndexPayload data ptr
    pure (if existing = divider then some () else none)) cellCount 0
  pure found.isSome

/-- The page part of `update_table_row`: `none` where no record is replaced.
mirrors sqllite-core/src/storage/btree.rs:975-998 -/
def updateCell (data : Bytes) (h : Nat) (key : Int) (record : Bytes) : Result (Option Bytes) := do
  let cellCount ← readU16Be data (h + 3)
  let found ← findCell (leafLayout h) data (fun _ ptr => do
    let (rowid, payloadOffset) ← readCellRowid data ptr
    pure (if rowid = key then some payloadOffset else none)) cellCount 0
  match found with
  | none => pure none
  | some payloadOffset => do
    let (oldLen, n) ← readVarint data payloadOffset
    if record.length ≠ oldLen then pure none
    else do
      let data ← copyInto data (payloadOffset + n) record
      pure (some data)

/-- Moves `k` entries behind entry `i` one place down. -/
def shiftDown (L : Layout) : Nat → Nat → Bytes → Result Bytes
  | 0, _, data => .ok data
  | k + 1, i, data => do
    let ptr ← readU16Be data (L.ptr (i + 1))
    let data ← writeU16Be data (L.ptr i) ptr
    shiftDown L k (i + 1) data

/-- The page part of `delete`: `none` where the key is not on the page.
mirrors sqllite-core/src/storage/btree.rs:1009-1032 -/
def deleteCell (data : Bytes) (h : Nat) (key : Int) : Result (Option Bytes) := do
  let cellCount ← readU16Be data (h + 3)
  let found ← findCell (leafLayout h) data (fun i ptr => do
    let (rowid, _) ← readCellRowid data ptr
    pure (if rowid = key then some i else none)) cellCount 0
  match found with
  | none => pure none
  | some i => do
    let data ← shiftDown (leafLayout h) (cellCount - 1 - i) i data
    let data ← writeU16Be data (h + 3) (cellCount - 1)
    pure (some data)

/-- A cell of a table leaf, encoded again, with its row id. -/
def recode (data : Bytes) (ptr : Nat) : Result (Int × Bytes) := do
  let (rowid, payloadOff) ← readCellRowid data ptr
  let payload ← readPayload data payloadOff
  let cell ← buildTableCell rowid payload
  pure (rowid, cell)

/-- The cells of a table leaf with a new one, by row id. -/
def leafCellsWith (data : Bytes) (h : Nat) (newCell : Bytes) (newKey : Int) :
    Result (List (Int × Bytes)) := do
  let cellCount ← readU16Be data (h + 3)
  let cells ← collectCells (leafLayout h) data (recode data) cellCount 0
  pure ((cells ++ [(newKey, newCell)]).insertionSort (·.1 ≤ ·.1))

/-- The cells of an index leaf with a new one, by payload. -/
def leafIndexCellsWith (data : Bytes) (h : Nat) (newCell newDivider : Bytes) :
    Result (List (Bytes × Bytes)) := do
  let cellCount ← readU16Be data (h + 3)
  let cells ← collectCells (leafLayout h) data (fun ptr => do
    let payload ← readIndexPayload data ptr
    let cell ← buildIndexCell payload
    pure (payload, cell)) cellCount 0
  pure ((cells ++ [(newDivider, newCell)]).insertionSort fun a b => ¬ b.1 < a.1)

/-- The key `split_interior_table` sorts a cell by. -/
def interiorTableKey (cell : Bytes) : Int :=
  match readInteriorTableCell cell 0 with
  | .ok (_, key) => key
  | .error _ => 0

/-- The key `split_interior_index` sorts a cell by. -/
def interiorIndexKey (cell : Bytes) : Bytes :=
  match readInteriorIndexCell cell 0 with
  | .ok (_, key) => key
  | .error _ => []

/-- The cells of a table interior page with a new one, by key. -/
def interiorCellsWith (data : Bytes) (h : Nat) (newCell : Bytes) : Result (List Bytes) := do
  let cellCount ← readU16Be data (h + 3)
  let cells ← collectCells (interiorLayout h) data (fun ptr => do
    let (_, n) ← readVarint data (ptr + 4)
    slice data ptr (ptr + 4 + n)) cellCount 0
  pure ((cells ++ [newCell]).insertionSort fun a b => interiorTableKey a ≤ interiorTableKey b)

/-- The cells of an index interior page with a new one, by key. -/
def interiorIndexCellsWith (data : Bytes) (h : Nat) (newCell : Bytes) : Result (List Bytes) := do
  let cellCount ← readU16Be data (h + 3)
  let cells ← collectCells (interiorLayout h) data (fun ptr => do
    let (len, n) ← readVarint data (ptr + 4)
    slice data ptr (ptr + 4 + n + len)) cellCount 0
  pure ((cells ++ [newCell]).insertionSort fun a b => ¬ interiorIndexKey b < interiorIndexKey a)

end Sqllite
