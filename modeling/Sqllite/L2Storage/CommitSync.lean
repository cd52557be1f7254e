import Sqllite.L2Storage.FileCalls
import Sqllite.L2Storage.PagerRun

/-!
# Commits and their syncs

A commit writes the dirty pages and page 1, and then it syncs the log and the database
file. Each of these calls can fail; whichever does leaves the pager in its transaction.

* `commitSynced_none`: with syncs that succeed it is `commit`.
* `attempt_commitSynced_iff`: when a commit whose error is dropped has brought its pages
  where a new pager reads them.
-/
namespace Sqllite
open Lib Lib.Run Lib.Span

namespace Pager

/-- The outcomes of the two syncs of a commit. -/
structure Syncs where
  log : Option SqlliteError
  file : Option SqlliteError

/-- A sync with an outcome. -/
def sync (outcome : Option SqlliteError) : PagerM Unit :=
  match outcome with
  | none => pure ()
  | some e => throw (.err e)

/-- The writes of `commit`; page 1 with its new header is returned. -/
def commitWrites : PagerM Bytes := do
  let s ← get
  let dbSize := s.pageCount
  flushPages s.dirtyPages dbSize
  let s ← get
  if s.header.changeCounter + 1 < 2 ^ 32 then do
    let header := { s.header with
      databaseSize := dbSize, changeCounter := s.header.changeCounter + 1 }
    set { s with header := header }
    let page ← headerPage
    let page ← lift (header.write page)
    writeHeaderPage page dbSize
    pure page
  else do
    set { s with header := { s.header with databaseSize := dbSize } }
    lift panicked

/-- mirrors sqllite-core/src/storage/pager.rs:280-346, with the syncs -/
def commitSynced (y : Syncs) : PagerM Unit := do
  let s ← get
  if ¬ s.inTransaction then pure ()
  else do
    let page ← commitWrites
    let s ← get
    if s.logs ∧ s.wal.isSome then sync y.log else pure ()
    modify fun s => { s with
      cache := Table.mapVals (fun f => { f with dirty := false })
        (s.cache.insert ROOT_PAGE { data := page, dirty := false }) }
    sync y.file
    modify fun s => { s with inTransaction := false }

/-- The pager behind a commit. -/
def settledWith (s : Pager) (page : Bytes) : Pager :=
  { s with
    cache := Table.mapVals (fun f => { f with dirty := false })
      (s.cache.insert ROOT_PAGE { data := page, dirty := false })
    inTransaction := false }

section
variable {s s' : Pager}

theorem commit_eq (h : s.inTransaction = true) : commit s = match commitWrites s with
    | .ok page t => .ok () (t.settledWith page)
    | .error e t => .error e t := by
  rw [commit, commitWrites, bind_ok (get_apply s), if_neg (by rw [h]; decide), bind_ok (get_apply s)]
  cases hflush : flushPages s.dirtyPages s.pageCount s with
  | error e t => rw [bind_error hflush, bind_error hflush]
  | ok u t =>
    rw [bind_ok hflush, bind_ok hflush, bind_ok (get_apply t), bind_ok (get_apply t)]
    split
    · rw [bind_ok (set_apply t _), bind_ok (set_apply t _), bind_apply, bind_apply]
      cases headerPage _ with
      | error e v => rfl
      | ok data v =>
        dsimp only
        rw [bind_apply, bind_apply]
        cases lift _ v with
        | error e w => rfl
        | ok page w =>
          dsimp only
          rw [bind_apply, bind_apply]
          cases writeHeaderPage page s.pageCount w <;> rfl
    · rfl

/-- The log is synced where frames were appended. -/
def syncedLog (s : Pager) : Bool := s.logs && s.wal.isSome

theorem commitSynced_eq (y : Syncs) (h : s.inTransaction = true) : commitSynced y s = match commitWrites s with
    | .error e t => .error e t
    | .ok page t =>
      match if t.syncedLog then y.log else none with
      | some e => .error (.err e) t
      | none =>
        match y.file with
        | some e => .error (.err e) { t.settledWith page with inTransaction := t.inTransaction }
        | none => .ok () (t.settledWith page) := by
  rw [commitSynced, bind_ok (get_apply s), if_neg (by rw [h]; decide), bind_apply]
  cases commitWrites s with
  | error e t => rfl
  | ok page t =>
    dsimp only
    rw [bind_ok (get_apply t)]
    by_cases hlog : t.logs = true ∧ t.wal.isSome = true
    · have hsynced : t.syncedLog = true := Bool.and_eq_true_iff.mpr hlog
      rw [if_pos hlog, hsynced, if_pos rfl]
      obtain ⟨_ | e, _ | e'⟩ := y <;> rfl
    · have hsynced : ¬ t.syncedLog = true := mt Bool.and_eq_true_iff.mp hlog
      rw [if_neg hlog, if_neg hsynced]
      obtain ⟨o, _ | e'⟩ := y <;> rfl

/-- With syncs that succeed it is `commit`. -/
theorem commitSynced_none : commitSynced ⟨none, none⟩ = commit := by
  funext s
  by_cases htx : s.inTransaction = true
  · rw [commitSynced_eq _ htx, commit_eq htx]
    cases commitWrites s with
    | error e t => rfl
    | ok page t =>
      dsimp only
      rw [ite_self]
  · rw [commitSynced, commit, bind_ok (get_apply s), bind_ok (get_apply s), if_pos htx, if_pos htx]

/-! ## Writes -/

theorem flushPages_same {dirty : List Page} {dbSize : Nat} {u : Unit} (h : flushPages dirty dbSize s = .ok u s') :
    s'.header = s.header ∧ s'.cache = s.cache := by
  have hkeeps : Keeps (fun t : Pager => t.header = s.header ∧ t.cache = s.cache) (flushPages dirty dbSize) :=
    flushPages_keeps (fun _ _ _ _ _ ht => ht) dirty dbSize
  have hpost := hkeeps.post (s := s) ⟨rfl, rfl⟩
  rwa [post_ok h] at hpost

theorem writeHeaderPage_ok {data : Bytes} {dbSize : Nat} {u : Unit} (hd : s.DiskOk) (hdb : dbSize < 2 ^ 32)
    (hlen : data.length = s.pageSize) (h : writeHeaderPage data dbSize s = .ok u s') :
    s.Flushed s' [⟨ROOT_PAGE, data, false⟩] s.writesPerPage := by
  have hf : s.PageFits ⟨ROOT_PAGE, data, false⟩ := ⟨Nat.le_refl 1, hd.count.1, hlen⟩
  rw [writeHeaderPage, bind_ok (get_apply s)] at h
  unfold writesPerPage
  cases hl : s.logs with
  | false => rw [hl] at h; exact put_file.ok hd hl hf h
  | true => rw [hl] at h; exact (put_log hdb).ok hd hl hf h

theorem commitWrites_keeps {I : Pager → Prop} (h : Blind I)
    (hheader : ∀ s header, I s → I { s with header := header }) : Keeps I commitWrites := by
  intro s hs
  rw [commitWrites, bind_ok (get_apply s)]
  refine Hoare.bind (Q := fun _ => I) (flushPages_keeps h _ _) (fun _ => ?_) s hs
  intro t ht
  rw [bind_ok (get_apply t)]
  by_cases hcount : t.header.changeCounter + 1 < 2 ^ 32
  · rw [if_pos hcount, bind_ok (set_apply t _)]
    refine Hoare.bind headerPage_keeps (fun page => Hoare.bind (Q := fun _ => I) Keeps.lift
      fun page => ?_) _ (hheader t _ ht)
    exact Hoare.bind (writeHeaderPage_keeps h _ _) fun _ => Keeps.pure
  · rw [if_neg hcount, bind_ok (set_apply t _)]
    exact hheader t _ ht

/-- The writes leave the transaction open. -/
theorem commitWrites_transaction (s : Pager) : (post commitWrites s).inTransaction = s.inTransaction :=
  (commitWrites_keeps (I := fun t => t.inTransaction = s.inTransaction) (fun _ _ _ _ _ ht => ht)
    fun _ _ ht => ht).post rfl

/-- A commit whose writes succeed writes the dirty pages, and page 1 with its new header. -/
theorem commitWrites_ok {page : Bytes} (h : s.Sound) (hrun : commitWrites s = .ok page s') :
    s.Clear s.commitCost ∧ s.header.changeCounter + 1 < 2 ^ 32 ∧ ∃ t, s.Wrote t s.dirtyPages ∧ t.cache = s.cache ∧
      t.Wrote s' [⟨ROOT_PAGE, page, false⟩] ∧ page = s.nextDbHeader.overlay (t.rootImage t.file) ∧
      (t.rootImage t.file).length = s.pageSize := by
  rw [commitWrites, bind_ok (get_apply s)] at hrun
  obtain ⟨_, u, hflush, hrun⟩ := bind_eq_ok.mp hrun
  have hflushed := (flushPages_spec h).1 hflush
  obtain ⟨hheader, hcache⟩ := flushPages_same hflush
  rw [bind_ok (get_apply u)] at hrun
  split at hrun
  · rename_i hcount
    rw [bind_ok (set_apply u _), hheader] at hrun
    have hwrote : s.Wrote { u with header := s.nextDbHeader } s.dirtyPages :=
      hflushed.toWrote.of_fields rfl rfl rfl rfl rfl rfl rfl rfl
    have hhead : headerPage { u with header := s.nextDbHeader } = .ok (u.rootImage u.file) { u with header := s.nextDbHeader } :=
      headerPage_run s.nextDbHeader hwrote.disk.root
    have himage : (u.rootImage u.file).length = s.pageSize :=
      (rootImage_length (s := u) ⟨hflushed.disk, fun p f hf => by
        rw [hcache] at hf
        exact (h.cached p f hf).of_wrote hflushed.toWrote⟩ hflushed.disk.root).trans hflushed.pageSize
    have hsz : 100 ≤ (u.rootImage u.file).length := by
      rw [himage]
      exact h.size
    change (headerPage >>= _) { u with header := s.nextDbHeader } = _ at hrun
    rw [bind_ok hhead, DatabaseHeader.write_ok hsz, bind_ok (lift_ok _ _)] at hrun
    obtain ⟨_, v, hwrite, hrun⟩ := bind_eq_ok.mp hrun
    cases hrun
    have hput := writeHeaderPage_ok hwrote.disk h.count.2
      ((DatabaseHeader.overlay_length hsz).trans (himage.trans hwrote.pageSize.symm)) hwrite
    refine ⟨?_, hheader ▸ hcount, _, hwrote, hcache, hput.toWrote, rfl, himage⟩
    have hcost : Pager.writesPerPage { u with header := s.nextDbHeader } = s.writesPerPage := by
      unfold writesPerPage
      rw [hwrote.logs]
    rw [commitCost, Nat.succ_mul]
    rw [hcost] at hput
    exact hflushed.clear.add hflushed.faults hput.clear
  · cases hrun

/-! ## Commits that return -/

/-- A pager over a database file that a new pager opens with the same header. -/
structure InFile (s : Pager) : Prop extends Sound s where
  valid : s.header.Valid
  headerSize : s.header.pageSize = s.pageSize
  mode : s.readOnly = true → s.journalMode ≠ .wal

/-- The pages a new pager counts. -/
def fileCount (s : Pager) : Nat :=
  match DatabaseHeader.parse (s.file.take DATABASE_HEADER_SIZE) with
  | .ok h => s.reopenCount h
  | .error _ => 0

/-- A changed page as a commit writes it. -/
def changedImage (s : Pager) (page : Page) : Bytes :=
  if page.pgno = ROOT_PAGE then s.nextDbHeader.overlay page.data else page.data

/-- The transaction of `s` is over in `s'`, and a new pager reads what it changed. -/
structure Committed (s s' : Pager) : Prop where
  ended : s'.inTransaction = false
  stored : s.memory = false →
    ∀ page ∈ s.dirtyPages, s'.readAfterReopen page.pgno = some (s.changedImage page)

/-- No write and no sync of the commit fails. -/
def Flushes (s : Pager) (y : Syncs) : Prop :=
  s.Clear s.commitCost ∧ (s.logs = true → y.log = none) ∧ y.file = none

/-- In WAL mode page 1 of the file stays as it is, with the number of pages in it. -/
def Counted (s : Pager) : Prop := s.logs = true → ∀ page ∈ s.dirtyPages, page.pgno ≤ s.fileCount

/-- Behind the writes of a commit, a new pager reads the changed pages it counts. -/
theorem commitWrites_stored {page : Bytes} (h : s.InFile) (hrun : commitWrites s = .ok page s')
    (hmem : s.memory = false) {changed : Page} (hmem' : changed ∈ s.dirtyPages) :
    (s'.settledWith page).readAfterReopen changed.pgno =
      if s.logs = true ∧ s.fileCount < changed.pgno then none else some (s.changedImage changed) := by
  obtain ⟨-, hcount, t, hw, hcache, hroot, rfl, hlen⟩ := commitWrites_ok h.toSound hrun
  obtain ⟨u, hu⟩ : ∃ u, u = s'.settledWith (s.nextDbHeader.overlay (t.rootImage t.file)) := ⟨_, rfl⟩
  have hwu : t.Wrote u [⟨ROOT_PAGE, s.nextDbHeader.overlay (t.rootImage t.file), false⟩] := by
    rw [hu]
    exact hroot.of_fields rfl rfl rfl rfl rfl rfl rfl rfl
  rw [← hu]
  clear hu hroot hrun
  obtain ⟨h1, hle, -⟩ := dirtyPages_fit h.toSound changed hmem'
  have hread : u.readBack changed.pgno = .ok (s.changedImage changed) := by
    unfold changedImage
    by_cases hp : changed.pgno = ROOT_PAGE
    · rw [if_pos hp, hp, hwu.here _ List.mem_cons_self]
      have hlook : t.cache.lookup ROOT_PAGE = some ⟨changed.data, changed.dirty⟩ := by
        rw [hcache, ← hp]
        exact mem_dirtyPages hmem'
      rw [rootImage, hlook]
    · rw [if_neg hp]
      apply hwu.there _ _ h1 _ (hw.here changed hmem')
      intro q hq
      rw [List.mem_singleton.mp hq]
      exact fun he => hp he.symm
  have hps : u.pageSize = s.pageSize := hwu.pageSize.trans hw.pageSize
  have hmode : ¬ (u.readOnly = true ∧ u.journalMode = .wal) := by
    rw [hwu.readOnly, hw.readOnly, hwu.journalMode, hw.journalMode]
    exact fun hro => h.mode hro.1 hro.2
  have hum : u.memory = false := (hwu.memory.trans hw.memory).trans hmem
  cases hl : s.logs with
  | true =>
    obtain ⟨hdr, hh, hsize⟩ := h.header
    have hfile : u.file = s.file := (hwu.logged (hw.logs.trans hl)).trans (hw.logged hl)
    have hcounted : u.reopenCount hdr = s.fileCount := by
      rw [fileCount, hh]
      dsimp only
      rw [reopenCount, reopenCount, hfile]
    rw [readAfterReopen_eq hwu.disk hum (hfile ▸ hh) (hsize.trans hps.symm), if_neg hmode, hcounted, hread]
    by_cases hp : s.fileCount < changed.pgno
    · rw [if_pos (.inr hp), if_pos ⟨rfl, hp⟩]
    · rw [if_neg (by omega), if_neg fun hc => hp hc.2]
      rfl
  | false =>
    have hparse := parse_of_root hwu.disk ((hwu.logs.trans hw.logs).trans hl) (hwu.here _ List.mem_cons_self)
      (hlen.trans hps.symm) (nextDbHeader_valid h.valid h.count.2 hcount)
    have hcounted : u.reopenCount s.nextDbHeader = s.pageCount := if_pos h.count.1
    rw [readAfterReopen_eq hwu.disk hum hparse (h.headerSize.trans hps.symm), if_neg hmode, hcounted, hread,
      if_neg (by omega), if_neg fun hc => absurd hc.1 (by decide)]
    rfl

/-- A commit that returns ends the transaction, and none of its calls has failed. -/
theorem commitSynced_ok {y : Syncs} {u : Unit} (h : s.Sound) (htx : s.inTransaction = true)
    (hrun : commitSynced y s = .ok u s') :
    s.Flushes y ∧ ∃ page t, commitWrites s = .ok page t ∧ s' = t.settledWith page := by
  rw [commitSynced_eq y htx] at hrun
  cases hw : commitWrites s with
  | error e t =>
    rw [hw] at hrun
    cases hrun
  | ok page t =>
    obtain ⟨hclear, -, v, hv, -, hroot, -⟩ := commitWrites_ok h hw
    rw [hw] at hrun
    dsimp only at hrun
    have hsynced : s.logs = true → t.syncedLog = true := fun hl => by
      have hlt : t.logs = true := (hroot.logs.trans hv.logs).trans hl
      obtain ⟨w, -, hwal, -⟩ := hroot.disk.log hlt
      rw [syncedLog, hlt, hwal]
      rfl
    cases hlog : (if t.syncedLog = true then y.log else none) with
    | some e =>
      rw [hlog] at hrun
      cases hrun
    | none =>
      rw [hlog] at hrun
      cases hfile : y.file with
      | some e =>
        rw [hfile] at hrun
        cases hrun
      | none =>
        rw [hfile] at hrun
        cases hrun
        refine ⟨⟨hclear, fun hl => ?_, hfile⟩, page, t, rfl, rfl⟩
        rwa [if_pos (hsynced hl)] at hlog

/-- A commit that fails keeps the transaction, and one of its calls has failed. -/
theorem commitSynced_err {y : Syncs} {e : SqlliteError} (h : s.Sound) (htx : s.inTransaction = true)
    (hrun : commitSynced y s = .error (.err e) s') : ¬ s.Flushes y ∧ s'.inTransaction = true := by
  have hkept := commitWrites_transaction s
  have hcommit := commit_eq htx
  rw [commitSynced_eq y htx] at hrun
  cases hw : commitWrites s with
  | error f t =>
    rw [hw] at hrun hcommit
    cases hrun
    rw [post_error hw] at hkept
    obtain ⟨⟨k, hk, -, hfail⟩, -⟩ := commit_err h hcommit
    refine ⟨fun hf => ?_, hkept.trans htx⟩
    rw [hf.1 k hk] at hfail
    cases hfail
  | ok page t =>
    obtain ⟨-, -, v, hv, -, hroot, -⟩ := commitWrites_ok h hw
    rw [hw] at hrun
    rw [post_ok hw] at hkept
    dsimp only at hrun
    cases hlog : (if t.syncedLog = true then y.log else none) with
    | some f =>
      rw [hlog] at hrun
      cases hrun
      refine ⟨fun hf => ?_, hkept.trans htx⟩
      split at hlog
      · rename_i hsynced
        have hl : s.logs = true := (hroot.logs.trans hv.logs).symm.trans (Bool.and_eq_true_iff.mp hsynced).1
        rw [hf.2.1 hl] at hlog
        cases hlog
      · cases hlog
    | none =>
      rw [hlog] at hrun
      cases hfile : y.file with
      | none =>
        rw [hfile] at hrun
        cases hrun
      | some f =>
        rw [hfile] at hrun
        cases hrun
        refine ⟨fun hf => ?_, hkept.trans htx⟩
        rw [hf.2.2] at hfile
        cases hfile

/-- A commit whose error is dropped has committed exactly when no call of it failed and a
new pager counts the pages it wrote. -/
theorem attempt_commitSynced_iff {y : Syncs} {u : Unit} (h : s.InFile) (htx : s.inTransaction = true)
    (hrun : attempt (commitSynced y) s = .ok u s') : s.Committed s' ↔ s.Flushes y ∧ s.Counted := by
  cases hsync : commitSynced y s with
  | ok v t =>
    obtain ⟨hflushes, page, v, hw, rfl⟩ := commitSynced_ok h.toSound htx hsync
    rw [attempt_ok hsync] at hrun
    cases hrun
    rw [and_iff_right hflushes]
    constructor
    · intro hc hl changed hmem
      have hm : s.memory = false := by simpa using (Bool.and_eq_true_iff.mp hl).2
      have hread := hc.stored hm changed hmem
      rw [commitWrites_stored h hw hm hmem] at hread
      split at hread
      · cases hread
      · rename_i hp
        exact Nat.le_of_not_lt fun hlt => hp ⟨hl, hlt⟩
    · intro hc
      refine ⟨rfl, fun hm changed hmem => ?_⟩
      rw [commitWrites_stored h hw hm hmem, if_neg]
      intro hp
      have := hc hp.1 changed hmem
      omega
  | error f t =>
    unfold attempt at hrun
    rw [hsync] at hrun
    cases f with
    | panic => cases hrun
    | err e =>
      cases hrun
      obtain ⟨hflushes, hopen⟩ := commitSynced_err h.toSound htx hsync
      constructor
      · intro hc
        exact absurd (hc.ended.symm.trans hopen) (by decide)
      · intro hc
        exact absurd hc.1 hflushes

end

end Pager

end Sqllite
