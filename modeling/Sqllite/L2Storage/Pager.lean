import Sqllite.L2Storage.Wal

/-!
# Page cache and transactions (`storage/pager.rs`)

The pager's state includes what its VFS holds: the bytes of the database file,
those of the log next to it (`none`: no such file), and the outcomes of the
writes to come (`faults`: `some e` fails with `e` and leaves the file as it is;
writes past the end of the list succeed). Reads, opens and syncs succeed.

A cached page's number is its key. `db_path` is `None` exactly for `memory`,
and the `journal` field is never used, so neither has a field here.

* `getPage_eq`: a read returns the page's view.
-/
namespace Sqllite
open Lib Lib.Run Lib.Span

/-- mirrors sqllite-core/src/storage/pager.rs:13-22 -/
inductive JournalMode where
  | delete | persist | off | truncate | memory | wal
  deriving DecidableEq, Repr

/-- mirrors sqllite-core/src/storage/pager.rs:24-29 -/
structure PagerFlags where
  omitJournal : Bool := false
  memory : Bool := false
  readOnly : Bool := false
  deriving DecidableEq, Repr

/-- mirrors sqllite-core/src/storage/pager.rs:31-36 -/
structure Page where
  pgno : Nat
  data : Bytes
  dirty : Bool
  deriving DecidableEq, Repr

/-- A cached page but its number. -/
structure Frame where
  data : Bytes
  dirty : Bool
  deriving DecidableEq, Repr

/-- mirrors sqllite-core/src/storage/pager.rs:38-51, with the VFS it runs on -/
structure Pager where
  file : Bytes
  walFile : Option Bytes
  faults : List (Option SqlliteError)
  wal : Option Wal
  pageSize : Nat
  header : DatabaseHeader
  cache : Table Nat Frame
  journalMode : JournalMode
  inTransaction : Bool
  readOnly : Bool
  pageCount : Nat
  memory : Bool

abbrev PagerM (α : Type) := Prog SqlliteError Pager α

/-- `Err(SqlliteError::sql(code, message))` with the state as it is. -/
def failM {σ α : Type} (code : ResultCode) (message : String) : Prog SqlliteError σ α :=
  lift (fail code message)

namespace Pager

/-! ## VFS writes -/

/-- The outcome of the next VFS write. -/
def vfsWrite : PagerM Unit := do
  let s ← get
  match s.faults with
  | [] => pure ()
  | f :: fs =>
    set { s with faults := fs }
    match f with
    | none => pure ()
    | some e => throw (.err e)

/-- mirrors sqllite-core/src/io/mod.rs:121-131, on the database file -/
def writeFileAt (offset : Nat) (buf : Bytes) : PagerM Unit :=
  if buf = [] then pure ()
  else do
    vfsWrite
    modify fun s => { s with file := fileWrite s.file offset buf }

/-- mirrors sqllite-core/src/io/mod.rs:121-131, on the log -/
def writeLogAt (offset : Nat) (buf : Bytes) : PagerM Unit :=
  if buf = [] then pure ()
  else do
    vfsWrite
    modify fun s => { s with walFile := some (fileWrite (s.walFile.getD []) offset buf) }

/-! ## The log -/

/-- mirrors sqllite-core/src/storage/wal.rs:200-219 -/
def walCreate : PagerM Wal := do
  modify fun s => { s with walFile := some (s.walFile.getD []) }
  let s ← get
  let header := WalHeader.new s.pageSize 0x12345678 0x9abcdef0
  writeLogAt 0 header.encode
  pure { header := header, pageSize := s.pageSize, frameCount := 0, pageIndex := ∅, isLe := false }

/-- mirrors sqllite-core/src/storage/wal.rs:221-255 -/
def walOpen : PagerM Wal := do
  let s ← get
  match s.walFile with
  | none => walCreate
  | some log => if log = [] then walCreate else lift (Wal.openLog log s.pageSize)

/-- mirrors sqllite-core/src/storage/pager.rs:187-201 -/
def ensureWal : PagerM Unit := do
  let s ← get
  if s.journalMode ≠ .wal ∨ s.memory then pure ()
  else if s.wal.isSome then pure ()
  else do
    let wal ← walOpen
    modify fun s => { s with wal := some wal }

/-- mirrors sqllite-core/src/storage/wal.rs:302-330 -/
def appendFrame (wal : Wal) (pgno : Nat) (pageData : Bytes) (dbSize : Nat) : PagerM Unit :=
  if pageData.length ≠ wal.pageSize then failM .corrupt "WAL page size mismatch"
  else do
    let frameHdr := wal.frameHeader pgno pageData dbSize
    let offset := wal.frameOffset wal.frameCount
    writeLogAt offset frameHdr.encode
    writeLogAt (offset + WAL_FRAME_HEADER_SIZE) pageData
    if wal.frameCount + 1 < 2 ^ 32 then
      modify fun s => { s with wal := some { wal with
        pageIndex := wal.pageIndex.insert pgno wal.frameCount
        frameCount := wal.frameCount + 1 } }
    else lift panicked

/-- `if let Some(wal) = self.wal { wal.append_frame(..)?; }`. -/
def appendIfOpen (pgno : Nat) (pageData : Bytes) (dbSize : Nat) : PagerM Unit := do
  let s ← get
  match s.wal with
  | none => pure ()
  | some wal => appendFrame wal pgno pageData dbSize

/-- The header `checkpoint` writes: frames with the old salts are no longer valid. -/
def nextHeader (h : WalHeader) : WalHeader :=
  WalHeader.updateChecksum { h with
    checkpointSeq := (h.checkpointSeq + 1) % 2 ^ 32
    salt1 := (h.salt1 + 1) % 2 ^ 32
    salt2 := (h.salt2 + 1) % 2 ^ 32 }

/-- The loop body of `checkpoint`. -/
def copyFrame (wal : Wal) (pgno frameIdx : Nat) : PagerM Unit := do
  let s ← get
  let pageBuf ← lift (readExactAt (s.walFile.getD [])
    (wal.frameOffset frameIdx + WAL_FRAME_HEADER_SIZE) wal.pageSize)
  if pgno = 0 then lift panicked else writeFileAt ((pgno - 1) * wal.pageSize) pageBuf

/-- mirrors sqllite-core/src/storage/wal.rs:362-387 -/
def checkpoint (wal : Wal) : PagerM Unit := do
  forEach (fun e => copyFrame wal e.1 e.2) wal.pageIndex.entries
  let header := nextHeader wal.header
  modify fun s => { s with wal := some { wal with header := header } }
  writeLogAt 0 header.encode
  modify fun s => { s with walFile := s.walFile.map (·.take WAL_HEADER_SIZE) }
  modify fun s => { s with
    wal := some { wal with header := header, frameCount := 0, pageIndex := ∅ } }

/-- mirrors sqllite-core/src/storage/pager.rs:369-378 -/
def walCheckpoint : PagerM Unit := do
  let s ← get
  if s.journalMode ≠ .wal then pure ()
  else match s.wal with
    | none => pure ()
    | some wal => checkpoint wal

/-! ## Pages -/

/-- The log's image of a page, `none` where the file holds it. -/
def logged (s : Pager) (pgno : Nat) : Result (Option Bytes) :=
  match s.journalMode, s.wal with
  | .wal, some wal => wal.readPage (s.walFile.getD []) pgno
  | _, _ => .ok none

/-- A page as the log or the file holds it. -/
def readBack (s : Pager) (pgno : Nat) : Result Bytes := do
  match ← s.logged pgno with
  | some data => pure data
  | none => readExactAt s.file ((pgno - 1) * s.pageSize) s.pageSize

/-- mirrors sqllite-core/src/storage/pager.rs:203-238 -/
def getPage (pgno : Nat) : PagerM Page := do
  let s ← get
  match s.cache.lookup pgno with
  | some f => pure { pgno := pgno, data := f.data, dirty := f.dirty }
  | none =>
    if pgno = 0 ∨ pgno > s.pageCount then failM .corrupt "invalid page number"
    else do
      ensureWal
      let s ← get
      let data ← lift (s.readBack pgno)
      modify fun s => { s with cache := s.cache.insert pgno { data := data, dirty := false } }
      pure { pgno := pgno, data := data, dirty := false }

/-- mirrors sqllite-core/src/storage/pager.rs:240-250 -/
def writePage (page : Page) : PagerM Unit := do
  let s ← get
  if s.readOnly then failM .readOnly "attempt to write a readonly database"
  else set { s with cache := s.cache.insert page.pgno { data := page.data, dirty := true } }

/-- mirrors sqllite-core/src/storage/pager.rs:252-256 -/
def writePageDirect (pgno : Nat) (data : Bytes) : PagerM Unit := do
  let s ← get
  if pgno = 0 then lift panicked else writeFileAt ((pgno - 1) * s.pageSize) data

/-- mirrors sqllite-core/src/storage/pager.rs:258-271 -/
def allocatePage : PagerM Nat := do
  let s ← get
  let pgno := s.pageCount + 1
  if pgno < 2 ^ 32 then do
    set { s with
      pageCount := pgno
      cache := s.cache.insert pgno { data := List.replicate s.pageSize 0, dirty := true } }
    pure pgno
  else lift panicked

/-! ## Transactions -/

/-- mirrors sqllite-core/src/storage/pager.rs:273-279 -/
def begin : PagerM Unit := modify fun s => { s with inTransaction := true }

/-- The dirty pages, in the order `commit` writes them. -/
def dirtyPages (s : Pager) : List Page :=
  (s.cache.entries.filter (·.2.dirty)).map fun e =>
    { pgno := e.1, data := e.2.data, dirty := e.2.dirty }

/-- Whether `commit` appends to the log. -/
def logs (s : Pager) : Bool := s.journalMode == .wal && !s.memory

/-- The first loop of `commit`. -/
def flushPages (dirty : List Page) (dbSize : Nat) : PagerM Unit := do
  let s ← get
  if s.logs then do
    ensureWal
    forEach (fun page => appendIfOpen page.pgno page.data dbSize) dirty
  else forEach (fun page => writePageDirect page.pgno page.data) dirty

/-- The copy of page 1 that `commit` writes the header over. -/
def headerPage : PagerM Bytes := do
  let s ← get
  match s.cache.lookup ROOT_PAGE with
  | some f => pure f.data
  | none => lift (readExactAt s.file 0 s.pageSize)

/-- The write of page 1 with its new header. -/
def writeHeaderPage (page : Bytes) (dbSize : Nat) : PagerM Unit := do
  let s ← get
  if s.logs then appendIfOpen ROOT_PAGE page dbSize else writePageDirect ROOT_PAGE page

/-- mirrors sqllite-core/src/storage/pager.rs:280-346 -/
def commit : PagerM Unit := do
  let s ← get
  if ¬ s.inTransaction then pure ()
  else do
    let dbSize := s.pageCount
    flushPages s.dirtyPages dbSize
    let s ← get
    if s.header.changeCounter + 1 < 2 ^ 32 then do
      let header := { s.header with
        databaseSize := dbSize, changeCounter := s.header.changeCounter + 1 }
      set { s with header := header }
      let page ← headerPage
      let page ← lift (header.write page)
      writeHeaderPage page dbSize
      modify fun s => { s with
        cache := Table.mapVals (fun f => { f with dirty := false })
          (s.cache.insert ROOT_PAGE { data := page, dirty := false })
        inTransaction := false }
    else do
      set { s with header := { s.header with databaseSize := dbSize } }
      lift panicked

/-- mirrors sqllite-core/src/storage/pager.rs:348-352 -/
def rollback : PagerM Unit := modify fun s => { s with cache := ∅, inTransaction := false }

/-! ## Opening -/

/-- mirrors sqllite-core/src/storage/pager.rs:109-131 -/
def initializeNewDatabase : PagerM Unit := do
  let s ← get
  let header := { s.header with databaseSize := 1 }
  set { s with header := header }
  let page ← lift (header.write (List.replicate s.pageSize 0))
  let page ← lift (copyInto page 100
    ([PAGE_TYPE_LEAF_TABLE, 0, 0, 0, 0] ++ be16 s.pageSize ++ [0]))
  writePageDirect ROOT_PAGE page
  modify fun s => { s with pageCount := 1 }

/-- A missing file is an empty one here; the handle of a pager is its state, so
`open` takes the files from the state and sets the rest.
mirrors sqllite-core/src/storage/pager.rs:54-107 -/
def «open» (flags : PagerFlags) : PagerM Unit := do
  let s ← get
  let file := if flags.memory then [] else s.file
  let isNew := file.length = 0
  let header ← lift (if isNew then .ok (DatabaseHeader.new DEFAULT_PAGE_SIZE)
    else do
      let hdrBuf ← readExactAt file 0 DATABASE_HEADER_SIZE
      DatabaseHeader.parse hdrBuf)
  let pageCount :=
    if isNew then 0
    else if header.databaseSize > 0 then header.databaseSize
    else (file.length + header.pageSize - 1) / header.pageSize % 2 ^ 32
  set { s with
    file := file, wal := none, pageSize := header.pageSize, header := header, cache := ∅
    journalMode := .delete, inTransaction := false, readOnly := flags.readOnly
    pageCount := pageCount, memory := flags.memory }
  if isNew then initializeNewDatabase else pure ()

/-- The log handle `set_journal_mode` leaves open. -/
def switchWal (mode : JournalMode) : PagerM Unit := do
  let s ← get
  if mode = .wal ∧ ¬ s.memory then do
    let wal ← walOpen
    modify fun s => { s with wal := some wal }
  else if s.journalMode = .wal ∧ mode ≠ .wal then modify fun s => { s with wal := none }
  else pure ()

/-- mirrors sqllite-core/src/storage/pager.rs:154-171 -/
def setJournalMode (mode : JournalMode) : PagerM JournalMode := do
  let s ← get
  if s.readOnly ∧ mode = .wal then
    failM .readOnly "cannot change journal mode on readonly database"
  else do
    switchWal mode
    modify fun s => { s with journalMode := mode }
    pure mode

/-- mirrors sqllite-core/src/storage/pager.rs:172-182 -/
def setPageSize (size : Nat) : PagerM Nat := do
  let s ← get
  if s.pageCount > 1 then failM .error "page_size cannot be changed after data has been written"
  else do
    set { s with pageSize := size, header := { s.header with pageSize := size } }
    pure size

/-- No file and no log: what the first `open` of a path finds. -/
def noFiles : Pager where
  file := []
  walFile := none
  faults := []
  wal := none
  pageSize := DEFAULT_PAGE_SIZE
  header := DatabaseHeader.new DEFAULT_PAGE_SIZE
  cache := ∅
  journalMode := .delete
  inTransaction := false
  readOnly := false
  pageCount := 0
  memory := false

/-! ## Views -/

/-- What a page reads as when it is not cached. -/
def stored (s : Pager) (p : Nat) : Result Bytes :=
  if p = 0 ∨ p > s.pageCount then fail .corrupt "invalid page number" else s.readBack p

/-- What a page reads as. -/
def view (s : Pager) (p : Nat) : Result Bytes :=
  match s.cache.lookup p with
  | some f => .ok f.data
  | none => s.stored p

/-- The log is open wherever it is used. -/
def WalReady (s : Pager) : Prop := s.journalMode = .wal → s.memory ∨ s.wal.isSome

/-- A page image enters the cache when it was not there. -/
def touch (s : Pager) (p : Nat) (data : Bytes) : Pager :=
  match s.cache.lookup p with
  | some _ => s
  | none => { s with cache := s.cache.insert p { data := data, dirty := false } }

/-- The page `getPage` returns for an image. -/
def pageOf (s : Pager) (p : Nat) (data : Bytes) : Page :=
  { pgno := p, data := data, dirty := ((s.cache.lookup p).map (·.dirty)).getD false }

theorem ensureWal_ready {s : Pager} (h : s.WalReady) : ensureWal s = .ok () s := by
  unfold ensureWal
  rw [bind_ok (get_apply s)]
  by_cases h1 : s.journalMode ≠ .wal ∨ s.memory
  · rw [if_pos h1]; rfl
  · rw [if_neg h1, if_pos]
    · rfl
    · simp only [not_or, not_not] at h1
      exact (h h1.1).resolve_left h1.2

/-- A read returns the page's view. -/
theorem getPage_eq {s : Pager} (h : s.WalReady) (p : Nat) :
    getPage p s = match s.view p with
      | .ok data => .ok (s.pageOf p data) (s.touch p data)
      | .error e => .error e s := by
  unfold getPage view pageOf touch
  rw [bind_ok (get_apply s)]
  cases hc : s.cache.lookup p with
  | some f => rfl
  | none =>
    unfold stored
    by_cases hp : p = 0 ∨ p > s.pageCount
    · simp only [if_pos hp]; rfl
    · simp only [if_neg hp]
      rw [bind_ok (ensureWal_ready h), bind_ok (get_apply s)]
      cases s.readBack p <;> rfl

/-- The places of two pages in the file do not meet. -/
theorem page_apart {p q : Nat} (ps : Nat) (hp : 1 ≤ p) (hq : 1 ≤ q) (hne : p ≠ q) :
    (p - 1) * ps + ps ≤ (q - 1) * ps ∨ (q - 1) * ps + ps ≤ (p - 1) * ps := by
  have key : ∀ a b, 1 ≤ a → a < b → (a - 1) * ps + ps ≤ (b - 1) * ps := fun a b ha hab => by
    calc (a - 1) * ps + ps = (a - 1 + 1) * ps := by rw [Nat.add_mul, Nat.one_mul]
      _ ≤ (b - 1) * ps := Nat.mul_le_mul_right _ (by omega)
  rcases Nat.lt_or_gt_of_ne hne with h | h
  · exact .inl (key _ _ hp h)
  · exact .inr (key _ _ hq h)

end Pager

end Sqllite
