import Sqllite.L4Vdbe.InsertCode
import Sqllite.L4Vdbe.Roots
import Sqllite.L5Connection.ExecPath

/-!
# The roots of a connection

Main results:
* `Connection.execute_rooted`: a statement, however it ends.
* `Connection.roots_apart`: a run of statements.
-/
namespace Sqllite
open Lib Lib.Run Lib.Machine

namespace StatementHandle

section
variable [Unicode]

theorem step_rooted (fuel : Nat) : Keeps (fun p => Vdbe.Rooted (machine p)) (step fuel) := by
  have hvdbe : Keeps (fun p => Vdbe.Rooted (machine p)) (onVdbe (Vdbe.step fuel)) :=
    Keeps.zoom (Vdbe.step_rooted fuel) (fun _ hp => hp) fun _ _ _ ht => ht
  have hcommit : Keeps (fun p => Vdbe.Rooted (machine p)) (onPager Pager.commit) :=
    Hoare.zoom fun p hp => (Btree.grows_commit p.conn.pager.pageCount).weaken (fun _ ht => ht ▸ Nat.le_refl _)
      (fun _ _ ht => Db.growing_rooted p.conn.toDb _ hp ht) fun _ ht => Db.growing_rooted p.conn.toDb _ hp ht
  refine Keeps.bind hvdbe fun rc => Keeps.bind Keeps.get fun p => ?_
  split
  · exact Keeps.bind hcommit.attempt fun _ => Keeps.pure
  · exact Keeps.pure

theorem fetchAll_rooted (fuel : Nat) : ∀ n results, Keeps (fun p => Vdbe.Rooted (machine p)) (fetchAll fuel n results)
  | 0, _ => Keeps.lift
  | n + 1, results => by
    refine Keeps.bind (step_rooted fuel) fun rc => ?_
    cases rc with
    | row => exact Keeps.bind Keeps.get fun p => fetchAll_rooted fuel n _
    | done => exact Keeps.pure
    | _ => exact Keeps.lift

end

end StatementHandle

namespace Connection

section
variable [Unicode]

/-- Every root in the catalog is a page of the file, and no page is the root for two tables or
indexes. -/
def Rooted (c : Connection) : Prop := Owned c.toDb.Claims c.pager.pageCount

variable {α : Type}

theorem rooted_iff {c : Connection} : c.Rooted ↔ c.toDb.Rooted fun _ _ => False := by
  constructor
  · exact fun h => Owned.mono h (Nat.le_refl _) fun _ _ hr => hr.elim id False.elim
  · exact fun h => Owned.mono h (Nat.le_refl _) fun _ _ hr => .inl hr

theorem onPager_rooted {m : PagerM α} (hm : Btree.Grows m) : Keeps Rooted (onPager m) :=
  Hoare.zoom fun c hc => (hm c.pager.pageCount).weaken (fun _ ht => ht ▸ Nat.le_refl _)
    (fun _ _ ht => Owned.mono hc ht fun _ _ hr => hr) fun _ ht => Owned.mono hc ht fun _ _ hr => hr

theorem onDb_rooted {m : DbM α} (hm : ∀ P, Keeps (Db.Rooted P) m) : Keeps Rooted (onDb m) :=
  Keeps.zoom (hm fun _ _ => False) (fun _ hc => rooted_iff.mp hc) fun _ _ _ hd => rooted_iff.mpr hd

theorem executeDdl_rooted {change : DbM Unit} (h : ∀ P, Keeps (Db.Rooted P) change) : Keeps Rooted (executeDdl change) :=
  Keeps.bind (onPager_rooted Btree.grows_begin) fun _ => Keeps.bind (onDb_rooted h) fun _ =>
    Keeps.bind (onPager_rooted Btree.grows_commit) fun _ => Keeps.pure

/-- A statement begins without cursors; those it leaves are dropped. -/
theorem execSql_rooted (fuel : Nat) (sql : Parsed) : Keeps Rooted (execSql fuel sql) := by
  refine Hoare.bind (Q := fun stmt c => Rooted c ∧ stmt.vdbe.cursors = ∅) ?_ fun stmt => ?_
  · refine Hoare.get_bind fun c hc => Hoare.lift_bind (fun prog _ => ?_) fun _ ht => ht ▸ hc
    exact fun _ ht => ⟨ht ▸ hc, rfl⟩
  · refine Hoare.bind (Q := fun _ => Rooted) (Hoare.zoom fun c hc => ?_) fun (results, stmt) =>
      Keeps.bind (Keeps.modify fun _ hc => hc) fun _ => Keeps.pure
    have hrun := Keeps.bind (StatementHandle.fetchAll_rooted fuel fuel []) fun results =>
      Keeps.bind Keeps.get fun p => Keeps.pure (a := (results, p.stmt))
    have hdrop : ∀ p : Prepared, Vdbe.Rooted (StatementHandle.machine p) → Rooted p.conn := fun p hp =>
      Owned.mono hp (Nat.le_refl _) fun _ _ hr => .inl hr
    refine hrun.weaken (fun p hp => ?_) (fun _ => hdrop) hdrop
    subst hp
    refine Owned.mono hc.1 (Nat.le_refl _) fun o r hr => hr.elim id fun hcursor => ?_
    obtain ⟨id, cs, hlookup, -⟩ := hcursor
    change stmt.vdbe.cursors.lookup id = some cs at hlookup
    rw [hc.2, AList.lookup_empty] at hlookup
    cases hlookup

/-- A statement gives no page to two trees, whether it succeeds or fails. -/
theorem execute_rooted (fuel : Nat) (sql : Parsed) : Keeps Rooted (execute fuel sql) := by
  cases sql with
  | error e => exact Keeps.throw
  | ok stmt =>
    cases stmt with
    | createTable create => exact executeDdl_rooted fun _ => Db.createTable_rooted fuel create
    | createIndex create => exact executeDdl_rooted fun _ => Db.createIndex_rooted fuel create
    | dropTable drop => exact executeDdl_rooted fun _ => Db.dropTable_rooted _ _
    | begin =>
      exact Keeps.bind (onPager_rooted Btree.grows_begin) fun _ => Keeps.bind (Keeps.modify fun _ hc => hc) fun _ => Keeps.pure
    | commit =>
      exact Keeps.bind (Keeps.bind (onPager_rooted Btree.grows_commit) fun _ => Keeps.modify fun _ hc => hc) fun _ => Keeps.pure
    | rollback =>
      exact Keeps.bind (Keeps.bind (onPager_rooted Btree.grows_rollback) fun _ => Keeps.modify fun _ hc => hc) fun _ =>
        Keeps.pure
    | pragma p =>
      exact Keeps.bind Keeps.get fun c => Keeps.bind (onPager_rooted (Btree.grows_executePragma _ _ _)) fun _ => Keeps.pure
    | _ => exact execSql_rooted fuel _

/-- The connection behind statements, whether they succeed or fail. -/
def afterStatements (fuel : Nat) (stmts : List Parsed) (c : Connection) : Connection :=
  stmts.foldl (fun c sql => post (execute fuel sql) c) c

/-- Along every run of statements, of any kind and however they end, the root of each tree in the
catalog is a page of its own. -/
theorem roots_apart (c : Connection) (h : c.Rooted) (fuel : Nat) (stmts : List Parsed) :
    (afterStatements fuel stmts c).Rooted := by
  induction stmts generalizing c with
  | nil => exact h
  | cons sql stmts ih => exact ih _ ((execute_rooted fuel sql).post h)

end


/-- A table is created, its first row is inserted and rolled back, and the table is dropped. -/
theorem roots_apart_opened : let _ := Unicode.ascii
    openedConnection.Rooted ∧ (afterStatements 20 [.ok (.createTable createT), .ok .begin,
      .ok (.insert (Vdbe.insertRow [] [.integer 7])), .ok .rollback,
      .ok (.dropTable { ifExists := false, name := "t" })] openedConnection).Rooted := by
  let _ := Unicode.ascii
  have hentries : (∀ e ∈ openedConnection.schema.tables.entries,
      e.1 = toLowercase SCHEMA_TABLE_NAME ∧ e.2.rootPage = 1) ∧ openedConnection.schema.indexes.entries = [] ∧
      openedConnection.schema.schemaBtree = some 1 ∧ openedConnection.pager.pageCount = 1 := by decide +kernel
  obtain ⟨htables, hindexes, hschema, hcount⟩ := hentries
  -- both claims of the schema table are on page 1
  have hclaims : ∀ o r, openedConnection.toDb.Claims o r → o = .table (toLowercase SCHEMA_TABLE_NAME) ∧ r = 1 := by
    intro o r h
    cases o with
    | table key =>
      rcases h with ⟨t, hlookup, rfl⟩ | ⟨rfl, hroot⟩
      · obtain ⟨hkey, hroot⟩ := htables ⟨key, t⟩ (Table.mem_entries_iff.mpr hlookup)
        exact ⟨congrArg Owner.table hkey, hroot⟩
      · rw [hschema] at hroot
        exact ⟨rfl, (Option.some.inj hroot).symm⟩
    | index key =>
      obtain ⟨i, hlookup, -⟩ := h
      have hmem := Table.mem_entries_iff.mpr hlookup
      rw [hindexes] at hmem
      cases hmem
  have hrooted : openedConnection.Rooted := by
    intro o r h
    obtain ⟨rfl, rfl⟩ := hclaims o r h
    exact ⟨Nat.le_refl _, hcount.ge, fun o' h' => (hclaims o' 1 h').1⟩
  exact ⟨hrooted, roots_apart openedConnection hrooted 20 _⟩

end Connection

end Sqllite
