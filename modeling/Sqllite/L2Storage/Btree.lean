import Sqllite.L2Storage.BtreePage
import Sqllite.L2Storage.Pager

/-!
# B-trees and cursors (`storage/btree.rs`)

A B-tree is a root page number over a pager, a cursor a B-tree with a stack of
interior pages and the child slot taken on each. Both are state: the pager they
share is in the state of whichever runs.

The descents of the source are unbounded recursions and loops that change no
page before they reach a leaf, so one that visits more pages than the database
has goes round in a circle for ever. `fuel` counts the visits; without fuel the
run is a `panic`, as a stack overflow is.
-/
namespace Sqllite
open Lib.Run Lib.Span

/-- mirrors sqllite-core/src/storage/btree.rs:13-17 -/
structure BtreeFlags where
  intkey : Bool
  blobkey : Bool
  deriving DecidableEq, Repr

/-- The flags of a table. -/
def tableFlags : BtreeFlags := { intkey := true, blobkey := false }

/-- The flags of an index. -/
def indexFlags : BtreeFlags := { intkey := false, blobkey := true }

/-- mirrors sqllite-core/src/storage/btree.rs:19-23 -/
structure Btree where
  pager : Pager
  rootPage : Nat
  flags : BtreeFlags

/-- mirrors sqllite-core/src/storage/btree.rs:41-46 -/
structure LeafSplit where
  leftPgno : Nat
  dividerKey : Int
  dividerBlob : Option Bytes
  rightPgno : Nat
  deriving DecidableEq, Repr

abbrev BtreeM (α : Type) := Prog SqlliteError Btree α

namespace Btree

/-- `self.pager`. -/
def onPager {α : Type} (m : PagerM α) : BtreeM α := zoom (·.pager) (fun p b => { b with pager := p }) m

/-- mirrors sqllite-core/src/storage/btree.rs:1296-1314 and 1316-1334, which are alike -/
def initPage (pgno : Nat) (pageType : UInt8) : PagerM Unit := do
  let s ← get
  let h := pageHeaderOffset pgno
  let data ← lift (copyInto (List.replicate s.pageSize 0) h [pageType])
  let data ← lift (copyInto data (h + 5) (be16 s.pageSize))
  Pager.writePage { pgno := pgno, data := data, dirty := true }
  Pager.writePageDirect pgno data

/-- mirrors sqllite-core/src/storage/btree.rs:1296-1314 -/
def initLeafPage (pgno : Nat) (pageType : UInt8) : PagerM Unit := initPage pgno pageType

/-- mirrors sqllite-core/src/storage/btree.rs:1316-1334 -/
def initInteriorPage (pgno : Nat) (pageType : UInt8) : PagerM Unit := initPage pgno pageType

/-- mirrors sqllite-core/src/storage/btree.rs:83-91; returns the root page -/
def createBtree (pageType : UInt8) : PagerM Nat := do
  let pgno ← Pager.allocatePage
  initLeafPage pgno pageType
  pure pgno

/-- mirrors sqllite-core/src/storage/btree.rs:61-70 -/
def createTable : PagerM Nat := createBtree PAGE_TYPE_LEAF_TABLE

/-- mirrors sqllite-core/src/storage/btree.rs:72-81 -/
def createIndex : PagerM Nat := createBtree PAGE_TYPE_LEAF_INDEX

/-! ## Splits -/

/-- mirrors sqllite-core/src/storage/btree.rs:640-688; the left half is returned, as
the source leaves it in `page`. -/
def splitLeafTable (data : Bytes) (h left right : Nat) (newCell : Bytes) (newKey : Int) :
    BtreeM (Bytes × LeafSplit) := do
  let cells ← lift (leafCellsWith data h newCell newKey)
  let mid := cells.length / 2
  if mid = 0 then lift panicked
  else match cells[mid - 1]? with
    | none => lift panicked
    | some divider => do
      let data ← lift (rebuildLeafTablePage data h (cells.take mid))
      let rightPage ← onPager (Pager.getPage right)
      let rightData ← lift (rebuildLeafTablePage rightPage.data (pageHeaderOffset right)
        (cells.drop mid))
      onPager (Pager.writePage { rightPage with data := rightData })
      pure (data, { leftPgno := left, dividerKey := divider.1, dividerBlob := none,
                    rightPgno := right })

/-- mirrors sqllite-core/src/storage/btree.rs:690-735 -/
def splitLeafIndex (data : Bytes) (h left right : Nat) (newCell newDivider : Bytes) :
    BtreeM (Bytes × LeafSplit) := do
  let cells ← lift (leafIndexCellsWith data h newCell newDivider)
  let mid := cells.length / 2
  if mid = 0 then lift panicked
  else match cells[mid - 1]? with
    | none => lift panicked
    | some divider => do
      let data ← lift (rebuildLeafIndexPage data h ((cells.take mid).map (·.2)))
      let rightPage ← onPager (Pager.getPage right)
      let rightData ← lift (rebuildLeafIndexPage rightPage.data (pageHeaderOffset right)
        ((cells.drop mid).map (·.2)))
      onPager (Pager.writePage { rightPage with data := rightData })
      pure (data, { leftPgno := left, dividerKey := 0, dividerBlob := some divider.1,
                    rightPgno := right })

/-- The two rebuilt halves of an interior page, both with the old rightmost child. -/
def rebuildInteriorHalves (data : Bytes) (h right : Nat) (cells : List Bytes) : BtreeM Bytes := do
  let mid := cells.length / 2
  let rightmost ← lift (readU32Be data (h + 8))
  let data ← lift (rebuildInteriorTablePage data h (cells.take mid) rightmost)
  let rightPage ← onPager (Pager.getPage right)
  let newRightmost ← lift (readU32Be data (h + 8))
  let rightData ← lift (rebuildInteriorTablePage rightPage.data (pageHeaderOffset right)
    (cells.drop mid) newRightmost)
  onPager (Pager.writePage { rightPage with data := rightData })
  pure data

/-- mirrors sqllite-core/src/storage/btree.rs:737-783 -/
def splitInteriorTable (data : Bytes) (h left right : Nat) (newCell : Bytes) :
    BtreeM (Bytes × LeafSplit) := do
  let cells ← lift (interiorCellsWith data h newCell)
  let mid := cells.length / 2
  if mid = 0 then lift panicked
  else match cells[mid - 1]? with
    | none => lift panicked
    | some divider => do
      let (_, dividerKey) ← lift (readInteriorTableCell divider 0)
      let data ← rebuildInteriorHalves data h right cells
      pure (data, { leftPgno := left, dividerKey := dividerKey, dividerBlob := none,
                    rightPgno := right })

/-- mirrors sqllite-core/src/storage/btree.rs:785-835 -/
def splitInteriorIndex (data : Bytes) (h left right : Nat) (newCell : Bytes) :
    BtreeM (Bytes × LeafSplit) := do
  let cells ← lift (interiorIndexCellsWith data h newCell)
  let mid := cells.length / 2
  if mid = 0 then lift panicked
  else match cells[mid - 1]? with
    | none => lift panicked
    | some divider => do
      let (_, dividerBlob) ← lift (readInteriorIndexCell divider 0)
      let data ← rebuildInteriorHalves data h right cells
      pure (data, { leftPgno := left, dividerKey := 0, dividerBlob := some dividerBlob,
                    rightPgno := right })

/-- The cell of a split in its parent, of the B-tree's kind. -/
def buildDividerCell (flags : BtreeFlags) (child : Nat) (split : LeafSplit) : Result Bytes :=
  if flags.blobkey then
    match split.dividerBlob with
    | none => fail .corrupt "missing index divider"
    | some divider => buildInteriorIndexCell child divider
  else buildInteriorTableCell child split.dividerKey

/-- mirrors sqllite-core/src/storage/btree.rs:299-336 -/
def promoteRootSplit (split : LeafSplit) : BtreeM Unit := do
  let b ← get
  let newRoot ← onPager Pager.allocatePage
  let pageSize := b.pager.pageSize
  let h := pageHeaderOffset newRoot
  let pageType := if b.flags.blobkey then PAGE_TYPE_INTERIOR_INDEX else PAGE_TYPE_INTERIOR_TABLE
  let contentStart := pageSize % 65536
  let data ← lift (copyInto (List.replicate pageSize 0) h [pageType])
  let data ← lift (writeU16Be data (h + 5) contentStart)
  let data ← lift (writeU32Be data (h + 8) split.rightPgno)
  let cell ← lift (buildDividerCell b.flags b.rootPage split)
  if contentStart < cell.length then lift panicked
  else do
    let cellStart := contentStart - cell.length
    let data ← lift (copyInto data cellStart cell)
    let data ← lift (writeU16Be data (h + 3) 1)
    let data ← lift (writeU16Be data (h + 12) cellStart)
    onPager (Pager.writePage { pgno := newRoot, data := data, dirty := true })
    modify fun b => { b with rootPage := newRoot }

/-- The rightmost child of an interior page after its split: the right half. -/
def relinkRightmost (data : Bytes) (h : Nat) (split : LeafSplit) : Result Bytes := do
  let rightmost ← readU32Be data (h + 8)
  if rightmost = split.leftPgno then writeU32Be data (h + 8) split.rightPgno else pure data

/-- An interior page that was split goes to its parent, the root gets a new parent. -/
def passUp (pgno : Nat) (split : LeafSplit) : BtreeM (Option LeafSplit) := do
  let b ← get
  if pgno = b.rootPage then do
    promoteRootSplit split
    pure none
  else pure (some split)

/-- mirrors sqllite-core/src/storage/btree.rs:338-370 -/
def insertIntoInteriorTable (pgno : Nat) (split : LeafSplit) : BtreeM (Option LeafSplit) := do
  let page ← onPager (Pager.getPage pgno)
  let h := pageHeaderOffset pgno
  let data ← lift (relinkRightmost page.data h split)
  let cell ← lift (buildInteriorTableCell split.leftPgno split.dividerKey)
  match ← lift (tryInsertInteriorCellTable data h cell split.dividerKey) with
  | some data => do
    onPager (Pager.writePage { page with data := data })
    pure none
  | none => do
    let rightPgno ← onPager Pager.allocatePage
    let pageType ← lift (byteAt data h)
    onPager (initInteriorPage rightPgno pageType)
    let (data, interiorSplit) ← splitInteriorTable data h pgno rightPgno cell
    onPager (Pager.writePage { page with data := data })
    passUp pgno interiorSplit

/-- mirrors sqllite-core/src/storage/btree.rs:372-408 -/
def insertIntoInteriorIndex (pgno : Nat) (split : LeafSplit) : BtreeM (Option LeafSplit) := do
  match split.dividerBlob with
  | none => failM .corrupt "missing index divider"
  | some divider => do
    let page ← onPager (Pager.getPage pgno)
    let h := pageHeaderOffset pgno
    let data ← lift (relinkRightmost page.data h split)
    let cell ← lift (buildInteriorIndexCell split.leftPgno divider)
    match ← lift (tryInsertInteriorCellIndex data h cell divider) with
    | some data => do
      onPager (Pager.writePage { page with data := data })
      pure none
    | none => do
      let rightPgno ← onPager Pager.allocatePage
      onPager (initInteriorPage rightPgno PAGE_TYPE_INTERIOR_INDEX)
      let (data, interiorSplit) ← splitInteriorIndex data h pgno rightPgno cell
      onPager (Pager.writePage { page with data := data })
      passUp pgno interiorSplit

/-! ## Insertion -/

/-- mirrors sqllite-core/src/storage/btree.rs:228-262 -/
def insertIntoLeafTable (pgno : Nat) (cell : Bytes) (key : Int) : BtreeM (Option LeafSplit) := do
  let page ← onPager (Pager.getPage pgno)
  let h := pageHeaderOffset pgno
  let pageType ← lift (byteAt page.data h)
  if pageType ≠ PAGE_TYPE_LEAF_TABLE then failM .corrupt "expected leaf table page"
  else do
    match ← lift (findCellInPageTable page.data h key) with
    | some _ => failM .constraint "UNIQUE constraint failed"
    | none => do
      match ← lift (tryInsertLeafCell page.data h cell key) with
      | some data => do
        onPager (Pager.writePage { page with data := data })
        pure none
      | none => do
        let rightPgno ← onPager Pager.allocatePage
        onPager (initLeafPage rightPgno PAGE_TYPE_LEAF_TABLE)
        let (data, split) ← splitLeafTable page.data h pgno rightPgno cell key
        onPager (Pager.writePage { page with data := data })
        pure (some split)

/-- mirrors sqllite-core/src/storage/btree.rs:264-297 -/
def insertIntoLeafIndex (pgno : Nat) (cell divider : Bytes) : BtreeM (Option LeafSplit) := do
  let page ← onPager (Pager.getPage pgno)
  let h := pageHeaderOffset pgno
  let pageType ← lift (byteAt page.data h)
  if pageType ≠ PAGE_TYPE_LEAF_INDEX then failM .corrupt "expected leaf index page"
  else do
    let found ← lift (findCellInPageIndex page.data h divider)
    if found then failM .constraint "UNIQUE constraint failed"
    else do
      match ← lift (tryInsertLeafCellIndex page.data h cell divider) with
      | some data => do
        onPager (Pager.writePage { page with data := data })
        pure none
      | none => do
        let rightPgno ← onPager Pager.allocatePage
        onPager (initLeafPage rightPgno PAGE_TYPE_LEAF_INDEX)
        let (data, split) ← splitLeafIndex page.data h pgno rightPgno cell divider
        onPager (Pager.writePage { page with data := data })
        pure (some split)

/-- mirrors sqllite-core/src/storage/btree.rs:178-201 -/
def insertIntoTree (cell : Bytes) (key : Int) : Nat → Nat → BtreeM (Option LeafSplit)
  | 0, _ => lift panicked
  | fuel + 1, pgno => do
    let page ← onPager (Pager.getPage pgno)
    let h := pageHeaderOffset pgno
    let pageType ← lift (byteAt page.data h)
    if pageType = PAGE_TYPE_LEAF_TABLE then insertIntoLeafTable pgno cell key
    else if pageType = PAGE_TYPE_INTERIOR_TABLE then do
      let (child, _) ← lift (findChildPageTable page.data h key)
      match ← insertIntoTree cell key fuel child with
      | some split => insertIntoInteriorTable pgno split
      | none => pure none
    else failM .corrupt "unexpected page type in table btree"

/-- mirrors sqllite-core/src/storage/btree.rs:203-226 -/
def insertIndexIntoTree (cell divider : Bytes) : Nat → Nat → BtreeM (Option LeafSplit)
  | 0, _ => lift panicked
  | fuel + 1, pgno => do
    let page ← onPager (Pager.getPage pgno)
    let h := pageHeaderOffset pgno
    let pageType ← lift (byteAt page.data h)
    if pageType = PAGE_TYPE_LEAF_INDEX then insertIntoLeafIndex pgno cell divider
    else if pageType = PAGE_TYPE_INTERIOR_INDEX then do
      let (child, _) ← lift (findChildPageIndex page.data h divider)
      match ← insertIndexIntoTree cell divider fuel child with
      | some split => insertIntoInteriorIndex pgno split
      | none => pure none
    else failM .corrupt "unexpected page type in index btree"

/-- Pages a descent can visit before it goes round in a circle. -/
def fuel (s : Pager) : Nat := s.pageCount + 1

/-- mirrors sqllite-core/src/storage/btree.rs:147-158 -/
def insertTableRow (key : Int) (record : Bytes) : BtreeM Unit := do
  let cell ← lift (buildTableCell key record)
  let b ← get
  match ← insertIntoTree cell key (fuel b.pager) b.rootPage with
  | none => pure ()
  | some split => do
    let b ← get
    if split.leftPgno = b.rootPage then promoteRootSplit split
    else do
      let _ ← insertIntoInteriorTable b.rootPage split
      pure ()

/-- mirrors sqllite-core/src/storage/btree.rs:160-176 -/
def insertIndexPayload (payload : Bytes) : BtreeM Unit := do
  let cell ← lift (buildIndexCell payload)
  let b ← get
  match ← insertIndexIntoTree cell payload (fuel b.pager) b.rootPage with
  | none => pure ()
  | some split => do
    let b ← get
    if split.leftPgno = b.rootPage then promoteRootSplit split
    else do
      let _ ← insertIntoInteriorIndex b.rootPage split
      pure ()

/-- mirrors sqllite-core/src/storage/btree.rs:109-117 -/
def insert (key : Int) (record : Bytes) : BtreeM Unit := do
  let b ← get
  if b.flags.blobkey then failM .internal "use insert_index for index btrees"
  else insertTableRow key record

/-- mirrors sqllite-core/src/storage/btree.rs:133-145 -/
def insertIndex (key : Bytes) (rowid : Int) : BtreeM Unit := do
  let b ← get
  if ¬ b.flags.blobkey then failM .internal "insert_index requires index btree"
  else do
    let n ← lift (writeVarint (asU64 rowid))
    insertIndexPayload (key ++ n)

/-! ## Update and removal -/

/-- mirrors sqllite-core/src/storage/btree.rs:1000-1013 -/
def findLeafForKey (key : Int) : Nat → Nat → BtreeM Nat
  | 0, _ => lift panicked
  | fuel + 1, pgno => do
    let page ← onPager (Pager.getPage pgno)
    let h := pageHeaderOffset pgno
    let pageType ← lift (byteAt page.data h)
    if pageType = PAGE_TYPE_LEAF_TABLE then pure pgno
    else if pageType = PAGE_TYPE_INTERIOR_TABLE then do
      let (child, _) ← lift (findChildPageTable page.data h key)
      findLeafForKey key fuel child
    else failM .corrupt "invalid page in find_leaf"

/-- mirrors sqllite-core/src/storage/btree.rs:975-998 -/
def updateTableRow (key : Int) (record : Bytes) : BtreeM Bool := do
  let b ← get
  let leaf ← findLeafForKey key (fuel b.pager) b.rootPage
  let page ← onPager (Pager.getPage leaf)
  match ← lift (updateCell page.data (pageHeaderOffset leaf) key record) with
  | none => pure false
  | some data => do
    onPager (Pager.writePage { page with data := data })
    pure true

/-- mirrors sqllite-core/src/storage/btree.rs:1002-1032 -/
def delete (key : Int) : BtreeM Bool := do
  let b ← get
  if b.flags.blobkey then failM .internal "delete by rowid not supported on index btrees"
  else do
    let leaf ← findLeafForKey key (fuel b.pager) b.rootPage
    let page ← onPager (Pager.getPage leaf)
    match ← lift (deleteCell page.data (pageHeaderOffset leaf) key) with
    | none => pure false
    | some data => do
      onPager (Pager.writePage { page with data := data })
      pure true

/-- mirrors sqllite-core/src/storage/btree.rs:119-131 -/
def replace (key : Int) (record : Bytes) : BtreeM Unit := do
  let b ← get
  if b.flags.blobkey then failM .internal "replace not supported on index btrees"
  else do
    let updated ← updateTableRow key record
    if updated then pure ()
    else do
      let _ ← delete key
      insertTableRow key record

end Btree

/-! ## Cursors -/

/-- mirrors sqllite-core/src/storage/btree.rs:25-29 -/
structure CursorFrame where
  pgno : Nat
  childSlot : Nat
  deriving DecidableEq, Repr

/-- The stack's top is the head of the list.
mirrors sqllite-core/src/storage/btree.rs:31-39 -/
structure BtreeCursor where
  btree : Btree
  stack : List CursorFrame
  leafPgno : Nat
  cellIndex : Nat
  endOfTable : Bool
  currentKey : Option Int
  currentRecord : Option Bytes

abbrev CursorM (α : Type) := Prog SqlliteError BtreeCursor α

/-- mirrors sqllite-core/src/storage/btree.rs:93-107 -/
def Btree.cursor (b : Btree) : BtreeCursor where
  btree := b
  stack := []
  leafPgno := b.rootPage
  cellIndex := 0
  endOfTable := false
  currentKey := none
  currentRecord := none

namespace BtreeCursor

/-- `self.btree.pager`. -/
def onPager {α : Type} (m : PagerM α) : CursorM α :=
  zoom (·.btree.pager) (fun p c => { c with btree := { c.btree with pager := p } }) m

def isLeafType (t : UInt8) : Bool := t == PAGE_TYPE_LEAF_TABLE || t == PAGE_TYPE_LEAF_INDEX

def isInteriorType (t : UInt8) : Bool :=
  t == PAGE_TYPE_INTERIOR_TABLE || t == PAGE_TYPE_INTERIOR_INDEX

/-- The child a leftmost descent takes. -/
def leftmostChild (data : Bytes) (h : Nat) : Result Nat := do
  let cellCount ← readU16Be data (h + 3)
  if cellCount = 0 then readU32Be data (h + 8)
  else do
    let ptr ← readU16Be data ((interiorLayout h).ptr 0)
    childOfCell data h ptr

/-- mirrors sqllite-core/src/storage/btree.rs:1094-1127 and 1224-1257, which are alike -/
def descendLeftmostFrom : Nat → Nat → CursorM Nat
  | 0, _ => lift panicked
  | fuel + 1, pgno => do
    let page ← onPager (Pager.getPage pgno)
    let h := pageHeaderOffset pgno
    let pageType ← lift (byteAt page.data h)
    if isLeafType pageType then pure pgno
    else if isInteriorType pageType then do
      let child ← lift (leftmostChild page.data h)
      modify fun c => { c with stack := { pgno := pgno, childSlot := 0 } :: c.stack }
      descendLeftmostFrom fuel child
    else failM .corrupt "bad page type"

/-- The probe that `descend_for_key` compares index cells with. -/
def childForKey (data : Bytes) (h : Nat) (key : Int) (pageType : UInt8) : Result (Nat × Nat) :=
  if pageType = PAGE_TYPE_INTERIOR_TABLE then findChildPageTable data h key
  else do
    let probe ← encodeRecord [.integer (Int64.ofInt key)]
    findChildPageIndex data h probe

/-- mirrors sqllite-core/src/storage/btree.rs:1129-1184 -/
def descendForKey (key : Int) : Nat → Nat → CursorM Nat
  | 0, _ => lift panicked
  | fuel + 1, pgno => do
    let page ← onPager (Pager.getPage pgno)
    let h := pageHeaderOffset pgno
    let pageType ← lift (byteAt page.data h)
    if isLeafType pageType then pure pgno
    else if isInteriorType pageType then do
      let (child, slot) ← lift (childForKey page.data h key pageType)
      modify fun c => { c with stack := { pgno := pgno, childSlot := slot } :: c.stack }
      descendForKey key fuel child
    else failM .corrupt "bad page type"

/-- The loop of `advance_to_next_leaf` over the stack. -/
def popToNextLeaf : List CursorFrame → CursorM (Option Nat)
  | [] => do
    modify fun c => { c with stack := [] }
    pure none
  | frame :: stack => do
    modify fun c => { c with stack := stack }
    let page ← onPager (Pager.getPage frame.pgno)
    let h := pageHeaderOffset frame.pgno
    let cellCount ← lift (readU16Be page.data (h + 3))
    let nextSlot := frame.childSlot + 1
    if nextSlot ≤ cellCount then do
      modify fun c => { c with stack := { pgno := frame.pgno, childSlot := nextSlot } :: stack }
      let child ← lift (childPageAtSlot page.data h nextSlot)
      let c ← get
      let leaf ← descendLeftmostFrom (Btree.fuel c.btree.pager) child
      pure (some leaf)
    else popToNextLeaf stack

/-- mirrors sqllite-core/src/storage/btree.rs:1186-1222 -/
def advanceToNextLeaf : CursorM (Option Nat) := do
  let c ← get
  popToNextLeaf c.stack

/-- The key and the record of the cell at `ptr`, of the B-tree's kind. -/
def readEntry (flags : BtreeFlags) (data : Bytes) (ptr : Nat) : Result (Int × Bytes) :=
  if flags.blobkey then do
    let payload ← readIndexPayload data ptr
    let (key, rowid) ← splitIndexPayload payload
    pure (rowid, key)
  else do
    let (rowid, payloadOffset) ← readCellRowid data ptr
    let record ← readPayload data payloadOffset
    pure (rowid, record)

/-- mirrors sqllite-core/src/storage/btree.rs:1259-1286 -/
def readCurrent : CursorM Bool := do
  let c ← get
  let page ← onPager (Pager.getPage c.leafPgno)
  let h := pageHeaderOffset c.leafPgno
  let cellCount ← lift (readU16Be page.data (h + 3))
  if c.cellIndex ≥ cellCount then pure false
  else do
    let ptr ← lift (readU16Be page.data ((leafLayout h).ptr c.cellIndex))
    let (key, record) ← lift (readEntry c.btree.flags page.data ptr)
    modify fun c => { c with currentKey := some key, currentRecord := some record }
    pure true

/-- mirrors sqllite-core/src/storage/btree.rs:1036-1042 -/
def first : CursorM Bool := do
  modify fun c => { c with stack := [] }
  let c ← get
  let leaf ← descendLeftmostFrom (Btree.fuel c.btree.pager) c.btree.rootPage
  modify fun c => { c with leafPgno := leaf, cellIndex := 0, endOfTable := false }
  readCurrent

/-- What `next` does behind the last cell of a leaf. -/
def nextLeaf : CursorM Bool := do
  match ← advanceToNextLeaf with
  | some leaf => do
    modify fun c => { c with leafPgno := leaf, cellIndex := 0 }
    readCurrent
  | none => do
    modify fun c => { c with endOfTable := true, currentKey := none, currentRecord := none }
    pure false

/-- mirrors sqllite-core/src/storage/btree.rs:1044-1061 -/
def next : CursorM Bool := do
  let c ← get
  if c.endOfTable then pure false
  else do
    modify fun c => { c with cellIndex := c.cellIndex + 1 }
    let more ← readCurrent
    if more then pure true else nextLeaf

/-- The row id of the cell at `ptr`, of the B-tree's kind. -/
def rowidAt (flags : BtreeFlags) (data : Bytes) (ptr : Nat) : Result Int :=
  if flags.blobkey then do
    let payload ← readIndexPayload data ptr
    let (_, rowid) ← splitIndexPayload payload
    pure rowid
  else do
    let (rowid, _) ← readCellRowid data ptr
    pure rowid

/-- mirrors sqllite-core/src/storage/btree.rs:1063-1092 -/
def seek (key : Int) : CursorM Bool := do
  modify fun c => { c with stack := [] }
  let c ← get
  let leaf ← descendForKey key (Btree.fuel c.btree.pager) c.btree.rootPage
  modify fun c => { c with leafPgno := leaf }
  let page ← onPager (Pager.getPage leaf)
  let h := pageHeaderOffset leaf
  let cellCount ← lift (readU16Be page.data (h + 3))
  modify fun c => { c with cellIndex := 0, endOfTable := false }
  let found ← lift (findCell (leafLayout h) page.data (fun i ptr => do
    let rowid ← rowidAt c.btree.flags page.data ptr
    pure (if rowid ≥ key then some i else none)) cellCount 0)
  match found with
  | some i => do
    modify fun c => { c with cellIndex := i }
    readCurrent
  | none => do
    modify fun c => { c with endOfTable := true, currentKey := none, currentRecord := none }
    pure false

/-- mirrors sqllite-core/src/storage/btree.rs:1276-1281; `none` is the empty list -/
def values (c : BtreeCursor) : Result (List Value) :=
  match c.currentRecord with
  | some r => decodeRecord r
  | none => .ok []

/-- mirrors sqllite-core/src/storage/btree.rs:1283-1285 -/
def isEof (c : BtreeCursor) : Bool := c.endOfTable

end BtreeCursor

end Sqllite
