import Sqllite.L2Storage.Stable
import Sqllite.L3Sql.Catalog

/-!
# Changes of the catalog

A change of the catalog reaches the pager through cursors and B-trees only, so it
keeps what their calls keep (`Pager.Stable`). It is refused, does nothing, or begins
with a new page.

* `Db.createTable_new`, `Db.createIndex_new`: behind the new page, what the calls of
  a B-tree keep is kept.
* `Db.onPage_adds`, `Db.onPage_full`: the new page is added, or there is no room.
-/
namespace Sqllite
open Lib Lib.Run Lib.Span

variable {T : UInt8 → Prop} {W : Nat → Prop} {I : Pager → Prop}

namespace BtreeCursor

theorem scanFrom_keeps {α : Type} {J : Btree → Prop} (h : OnReads J)
    (f : α → BtreeCursor → Result α) : ∀ n a,
    Keeps (fun c : BtreeCursor => J c.btree) (scanFrom f n a)
  | 0, _ => Keeps.lift
  | n + 1, a => by
    refine Keeps.bind Keeps.get fun c => Keeps.bind Keeps.lift fun a => Keeps.bind (next_keeps h)
      fun more => ?_
    split
    · exact scanFrom_keeps h f n a
    · exact Keeps.pure

theorem scan_keeps {α : Type} {J : Btree → Prop} (h : OnReads J) (f : α → BtreeCursor → Result α)
    (fuel : Nat) (a : α) : Keeps (fun c : BtreeCursor => J c.btree) (scan f fuel a) := by
  refine Keeps.bind (first_keeps h) fun found => ?_
  split
  · exact scanFrom_keeps h f _ _
  · exact Keeps.pure

theorem findFrom_keeps {α : Type} {J : Btree → Prop} (h : OnReads J)
    (f : BtreeCursor → Result (Option α)) : ∀ n,
    Keeps (fun c : BtreeCursor => J c.btree) (findFrom f n)
  | 0 => Keeps.lift
  | n + 1 => by
    refine Keeps.bind Keeps.get fun c => Keeps.bind Keeps.lift fun found => ?_
    cases found with
    | some a => exact Keeps.pure
    | none =>
      refine Keeps.bind (next_keeps h) fun more => ?_
      split
      · exact findFrom_keeps h f n
      · exact Keeps.pure

theorem find_keeps {α : Type} {J : Btree → Prop} (h : OnReads J)
    (f : BtreeCursor → Result (Option α)) (fuel : Nat) :
    Keeps (fun c : BtreeCursor => J c.btree) (find f fuel) := by
  refine Keeps.bind (first_keeps h) fun found => ?_
  split
  · exact findFrom_keeps h f _
  · exact Keeps.pure

theorem nextRowid_keeps {J : Btree → Prop} (h : OnReads J) (fuel : Nat) :
    Keeps (fun c : BtreeCursor => J c.btree) (nextRowid fuel) := by
  refine Keeps.bind (scan_keeps h _ _ _) fun maxId => ?_
  split
  · exact Keeps.pure
  · exact Keeps.lift

end BtreeCursor

namespace Db

theorem onPager_keeps {α : Type} {m : PagerM α} (h : Keeps I m) :
    Keeps (fun d : Db => I d.pager) (onPager m) :=
  Keeps.zoom h (fun _ hd => hd) fun _ _ _ ht => ht

/-- What reads of the pager keep, a cursor of the catalog keeps. -/
theorem onCursor_keeps {α : Type} {c : SavedCursor} {m : CursorM α}
    (h : Keeps (fun c : BtreeCursor => I c.btree.pager) m) :
    Keeps (fun d : Db => I d.pager) (onCursor c m) :=
  Keeps.zoom h (fun _ hd => hd) fun _ _ _ ht => ht

theorem onCursorKeep_keeps {α : Type} {c : SavedCursor} {m : CursorM α}
    (h : Keeps (fun c : BtreeCursor => I c.btree.pager) m) :
    Keeps (fun d : Db => I d.pager) (onCursorKeep c m) :=
  onCursor_keeps (Keeps.bind h fun _ => Keeps.bind Keeps.get fun _ => Keeps.pure)

theorem onBtree_keeps {α : Type} {root : Nat} {flags : BtreeFlags} {m : BtreeM α}
    (h : Keeps (fun b : Btree => I b.pager) m) :
    Keeps (fun d : Db => I d.pager) (onBtree root flags m) :=
  Keeps.zoom (J := fun b : Btree => I b.pager) (Keeps.bind h fun _ => Keeps.bind Keeps.get fun _ =>
    Keeps.pure) (fun _ hd => hd) fun _ _ _ ht => ht

theorem onSchemaBtree_keeps {α : Type} {root : Nat} {m : BtreeM α}
    (h : Keeps (fun b : Btree => I b.pager) m) :
    Keeps (fun d : Db => I d.pager) (onSchemaBtree root m) :=
  Keeps.zoom h (fun _ hd => hd) fun _ _ _ ht => ht

theorem schemaRoot_keeps : Keeps (fun d : Db => I d.pager) schemaRoot := by
  refine Keeps.bind Keeps.get fun d => ?_
  split
  · exact Keeps.pure
  · exact Keeps.lift

theorem bumpCookie_keeps : Keeps (fun d : Db => I d.pager) bumpCookie := by
  intro d hd
  unfold bumpCookie
  rw [bind_ok (get_apply d)]
  cases h : d.schema.bumpCookie with
  | ok schema =>
    rw [bind_ok (lift_ok _ _)]
    exact hd
  | error e =>
    rw [bind_error (lift_error _ _)]
    exact hd

theorem insertSchemaRow_keeps (h : Pager.Stable T W I) (hl : T PAGE_TYPE_LEAF_TABLE)
    (hi : T PAGE_TYPE_INTERIOR_TABLE) (fuel : Nat) (name objType : String) (rootPage : Nat)
    (sql : String) :
    Keeps (fun d : Db => I d.pager) (insertSchemaRow fuel name objType rootPage sql) :=
  Keeps.bind schemaRoot_keeps fun _ =>
    Keeps.bind (onCursor_keeps (BtreeCursor.nextRowid_keeps (BtreeCursor.onReads_pager h.reads) _))
      fun _ => Keeps.bind Keeps.lift fun _ => onSchemaBtree_keeps (Btree.insert_keeps h hl hi _ _)

theorem indexRows_keeps (h : Pager.Stable T W I) (hl : T PAGE_TYPE_LEAF_INDEX)
    (hi : T PAGE_TYPE_INTERIOR_INDEX) (table : Schema.Table) (columns : List String) (n : Nat) :
    ∀ c root, Keeps (fun d : Db => I d.pager) (indexRows table columns n c root) := by
  induction n with
  | zero => exact fun _ _ => Keeps.lift
  | succ n ih =>
    intro c root
    have hread := BtreeCursor.onReads_pager h.reads
    rw [indexRows]
    have hrest : ∀ root, Keeps (fun d : Db => I d.pager) (do
        let next ← onCursorKeep c BtreeCursor.next
        if next.1 then indexRows table columns n next.2 root else pure () : DbM Unit) := by
      intro root
      refine Keeps.bind (onCursorKeep_keeps (BtreeCursor.next_keeps hread)) fun next => ?_
      split
      · exact ih next.2 root
      · exact Keeps.pure
    cases c.currentKey with
    | none => exact hrest root
    | some rowid =>
      exact Keeps.bind Keeps.get fun _ => Keeps.bind Keeps.lift fun _ => Keeps.bind Keeps.lift fun _ =>
        Keeps.bind (onBtree_keeps (Btree.insertIndex_keeps h hl hi _ _)) fun tree => hrest tree.2

/-- A change that begins with a new page adds it, or finds no room for it. -/
theorem onPage_adds {pageType : UInt8} {rest : Nat → DbM Unit} {d : Db}
    (h : ∀ root, Keeps (fun t : Db => d.pager.pageCount + 1 ≤ t.pager.pageCount) (rest root))
    (hroom : d.pager.pageCount + 1 < 2 ^ 32) :
    d.pager.pageCount + 1 ≤
      (post (onPager (Btree.createBtree pageType) >>= rest) d).pager.pageCount := by
  have hpage : Hoare (fun t : Db => t = d) (onPager (Btree.createBtree pageType))
      (fun _ t => d.pager.pageCount + 1 ≤ t.pager.pageCount)
      fun t => d.pager.pageCount + 1 ≤ t.pager.pageCount :=
    Hoare.zoom fun s hs => (Btree.createBtree_adds _ _).weaken
      (fun t ht => by rw [ht, hs]; exact ⟨rfl, hroom⟩) (fun _ _ ht => ht) fun _ ht => ht
  have hrun := Hoare.bind hpage h d rfl
  unfold post
  cases hd : (onPager (Btree.createBtree pageType) >>= rest) d <;> rw [hd] at hrun <;> exact hrun

theorem onPage_full {pageType : UInt8} {rest : Nat → DbM Unit} {d : Db}
    (h : 2 ^ 32 ≤ d.pager.pageCount + 1) :
    (onPager (Btree.createBtree pageType) >>= rest) d = .error .panic d := by
  have hpage : onPager (Btree.createBtree pageType) d = .error .panic d :=
    zoom_error (Btree.createBtree_full h pageType)
  exact bind_error hpage _

section
variable [Unicode]

theorem createTable_exists (fuel : Nat) {create : CreateTable} {d : Db}
    (h : (d.schema.table create.name).isSome = true) :
    createTable fuel create d = (if create.ifNotExists then pure ()
      else failM .error s!"table {create.name} already exists" : DbM Unit) d := by
  rw [createTable, bind_ok (get_apply d), if_pos h]

/-- A new table: behind the new page, `I` is kept. -/
theorem createTable_new (h : Pager.Stable (fun _ => True) W I) {fuel : Nat} {create : CreateTable} {d : Db}
    (hnew : (d.schema.table create.name).isSome = false) :
    ∃ rest : Nat → DbM Unit, (∀ root, Keeps (fun d : Db => I d.pager) (rest root)) ∧
      createTable fuel create d = (onPager Btree.createTable >>= rest) d := by
  rw [createTable, bind_ok (get_apply d), if_neg (by rw [hnew]; decide)]
  refine ⟨_, fun root => ?_, rfl⟩
  exact Keeps.bind (insertSchemaRow_keeps h trivial trivial _ _ _ _ _) fun _ =>
    Keeps.bind (Keeps.modify fun _ hd => hd) fun _ => bumpCookie_keeps

theorem createIndex_exists (fuel : Nat) {create : CreateIndex} {d : Db}
    (h : (d.schema.index create.name).isSome = true) :
    createIndex fuel create d = (if create.ifNotExists then pure ()
      else failM .error s!"index {create.name} already exists" : DbM Unit) d := by
  rw [createIndex, bind_ok (get_apply d), if_pos h]

/-- The table of an index is there, with its columns. -/
def Indexable (schema : Schema) (create : CreateIndex) : Prop :=
  ∃ table, schema.table create.table = some table ∧
    ∀ col ∈ create.columns, (table.columnIndex col).isSome = true

/-- A new index without its table or without one of its columns. -/
theorem createIndex_refused (fuel : Nat) {create : CreateIndex} {d : Db}
    (hnew : (d.schema.index create.name).isSome = false) (h : ¬ Indexable d.schema create) :
    ∃ e, createIndex fuel create d = .error e d := by
  rw [createIndex, bind_ok (get_apply d), if_neg (by rw [hnew]; decide)]
  cases htable : d.schema.table create.table with
  | none => exact ⟨_, rfl⟩
  | some table =>
    dsimp only
    cases hmissing : create.columns.find? fun col => (table.columnIndex col).isNone with
    | some col => exact ⟨_, rfl⟩
    | none =>
      refine absurd ⟨table, htable, fun col hcol => ?_⟩ h
      have hfound := List.find?_eq_none.mp hmissing col hcol
      rwa [Option.isNone_iff_eq_none, ← ne_eq, Option.ne_none_iff_isSome] at hfound

/-- A new index: behind the new page, `I` is kept. -/
theorem createIndex_new (h : Pager.Stable (fun _ => True) W I) {fuel : Nat} {create : CreateIndex} {d : Db}
    (hnew : (d.schema.index create.name).isSome = false) (hfit : Indexable d.schema create) :
    ∃ rest : Nat → DbM Unit, (∀ root, Keeps (fun d : Db => I d.pager) (rest root)) ∧
      createIndex fuel create d = (onPager Btree.createIndex >>= rest) d := by
  have hread := BtreeCursor.onReads_pager h.reads
  obtain ⟨table, htable, hcolumns⟩ := hfit
  have hmissing : (create.columns.find? fun col => (table.columnIndex col).isNone) = none :=
    List.find?_eq_none.mpr fun col hcol => by
      rw [Option.isNone_iff_eq_none, ← ne_eq, Option.ne_none_iff_isSome]
      exact hcolumns col hcol
  rw [createIndex, bind_ok (get_apply d), if_neg (by rw [hnew]; decide), htable]
  dsimp only
  rw [hmissing]
  refine ⟨_, fun root => ?_, rfl⟩
  refine Keeps.bind (onCursorKeep_keeps (BtreeCursor.first_keeps hread)) fun (found, c) => ?_
  have hrest := Keeps.bind (insertSchemaRow_keeps h trivial trivial fuel create.name "index" root
    (createIndexSql create)) fun _ => Keeps.bind (Keeps.modify (f := fun s : Db =>
      { s with schema := { s.schema with
        indexes := s.schema.indexes.insert (toLowercase create.name)
          { name := create.name, table := create.table, columns := create.columns
            rootPage := root, unique := create.unique } } }) fun _ hd => hd) fun _ => bumpCookie_keeps
  dsimp only
  split
  · exact Keeps.bind (indexRows_keeps h trivial trivial _ _ _ _ _) fun _ => hrest
  · exact hrest

theorem dropTable_missing {name : String} (ifExists : Bool) {d : Db} (h : d.schema.table name = none) :
    dropTable name ifExists d = (if ifExists then pure ()
      else failM .error s!"no such table: {name}" : DbM Unit) d := by
  rw [dropTable, bind_ok (get_apply d), if_pos (by rw [h]; rfl)]

theorem dropTable_tables {name : String} {ifExists : Bool} {d : Db}
    (h : (d.schema.table name).isSome = true) :
    (post (dropTable name ifExists) d).schema.tables = d.schema.tables.erase (toLowercase name) := by
  have hnone : ¬ (d.schema.table name).isNone = true := by
    rw [Option.isNone_iff_eq_none]
    exact Option.isSome_iff_ne_none.mp h
  rw [dropTable, post_bind_ok (get_apply d), if_neg hnone, post_bind_ok (set_apply d _), bumpCookie,
    post_bind_ok (get_apply _), Schema.bumpCookie]
  dsimp only
  split <;> rfl

end

end Db

end Sqllite
