import Sqllite.L2Storage.Roots
import Sqllite.L3Sql.CatalogKeeps
import Sqllite.Lib.Owned

/-!
# The roots in the catalog

A page is claimed as a root by what the catalog says of the schema table, the tables and the
indexes. The changes of the catalog leave every page with at most one owner (`Db.Rooted`): a
new tree and a root that moves take new pages.

* `Db.createTable_rooted`, `Db.createIndex_rooted`, `Db.dropTable_rooted`,
  `Db.setTableRootPage_rooted`.
-/
namespace Sqllite
open Lib Lib.Run Lib.Span

/-- What has a tree, by its key in the catalog. -/
inductive Owner where
  | table (key : String)
  | index (key : String)
  deriving DecidableEq, Repr

namespace Db

/-! ## What pages do not change -/

/-- `J` stays where pages are added. -/
def Growing (J : Db → Prop) : Prop :=
  ∀ d p, J d → d.pager.pageCount ≤ p.pageCount → J { d with pager := p }

section
variable {J : Db → Prop} {α : Type}

theorem Growing.schema (h : Growing J) (φ : Schema → Prop) : Growing fun d => J d ∧ φ d.schema :=
  fun d p hd hp => ⟨h d p hd.1 hp, hd.2⟩

theorem Growing.onPager (h : Growing J) {m : PagerM α} (hm : Btree.Grows m) : Keeps J (onPager m) :=
  Hoare.zoom fun d hd => (hm d.pager.pageCount).weaken (fun _ ht => ht ▸ Nat.le_refl _)
    (fun _ _ ht => h d _ hd ht) fun _ ht => h d _ hd ht

theorem Growing.onCursor (h : Growing J) {c : SavedCursor} {m : CursorM α}
    (hm : ∀ k, Keeps (fun c : BtreeCursor => k ≤ c.btree.pager.pageCount) m) : Keeps J (onCursor c m) :=
  Hoare.zoom fun d hd => (hm d.pager.pageCount).weaken (fun _ ht => ht ▸ Nat.le_refl _)
    (fun _ _ ht => h d _ hd ht) fun _ ht => h d _ hd ht

theorem Growing.onCursorKeep (h : Growing J) {c : SavedCursor} {m : CursorM α}
    (hm : ∀ k, Keeps (fun c : BtreeCursor => k ≤ c.btree.pager.pageCount) m) : Keeps J (onCursorKeep c m) :=
  h.onCursor fun k => Keeps.bind (hm k) fun _ => Keeps.bind Keeps.get fun _ => Keeps.pure

theorem Growing.onBtree (h : Growing J) {root : Nat} {flags : BtreeFlags} {m : BtreeM α}
    (hm : ∀ k, Keeps (fun b : Btree => k ≤ b.pager.pageCount) m) : Keeps J (onBtree root flags m) :=
  Hoare.zoom fun d hd => (Keeps.bind (hm d.pager.pageCount) fun _ => Keeps.bind Keeps.get fun _ =>
    Keeps.pure).weaken (fun _ ht => ht ▸ Nat.le_refl _) (fun _ _ ht => h d _ hd ht) fun _ ht => h d _ hd ht

/-- The calls of a cursor that only reads add no page. -/
theorem cursor_grows {m : CursorM α} (hm : ∀ K : Btree → Prop, BtreeCursor.OnReads K →
    Keeps (fun c : BtreeCursor => K c.btree) m) (k : Nat) :
    Keeps (fun c : BtreeCursor => k ≤ c.btree.pager.pageCount) m :=
  hm _ (BtreeCursor.onReads_pager (Pager.stable_pageCount k).reads)

theorem indexRows_growing (h : Growing J) (table : Schema.Table) (columns : List String) : ∀ n c root,
    Keeps J (indexRows table columns n c root)
  | 0, _, _ => Keeps.lift
  | n + 1, c, root => by
    rw [indexRows]
    have hrest : ∀ root, Keeps J (do
        let next ← onCursorKeep c BtreeCursor.next
        if next.1 then indexRows table columns n next.2 root else pure () : DbM Unit) := by
      intro root
      refine Keeps.bind (h.onCursorKeep (cursor_grows fun _ hK => BtreeCursor.next_keeps hK)) fun next => ?_
      split
      · exact indexRows_growing h table columns n next.2 root
      · exact Keeps.pure
    cases c.currentKey with
    | none => exact hrest root
    | some rowid =>
      exact Keeps.bind Keeps.get fun _ => Keeps.bind Keeps.lift fun _ => Keeps.bind Keeps.lift fun _ =>
        Keeps.bind (h.onBtree fun k => Btree.insertIndex_keeps (Pager.stable_pageCount k) trivial trivial _ _)
          fun tree => hrest tree.2

end

/-! ## Claims -/

section
variable [Unicode]

/-- The catalog has the root of an owner's tree on this page. The schema table has an entry among
the tables, which stays as it is when its root moves, and the root it has by now. -/
def Claims (d : Db) : Owner → Nat → Prop
  | .table key, r => (∃ t, d.schema.tables.lookup key = some t ∧ t.rootPage = r) ∨
      key = toLowercase SCHEMA_TABLE_NAME ∧ d.schema.schemaBtree = some r
  | .index key, r => ∃ i, d.schema.indexes.lookup key = some i ∧ i.rootPage = r

/-- Every root in the catalog is a page of the pager, and no page is the root for two. `P` are
claims that are made elsewhere. -/
def Rooted (P : Owner → Nat → Prop) (d : Db) : Prop :=
  Owned (fun o r => d.Claims o r ∨ P o r) d.pager.pageCount

/-- One claim more. -/
def Promise (P : Owner → Nat → Prop) (o : Owner) (r : Nat) : Owner → Nat → Prop :=
  fun o' r' => P o' r' ∨ o' = o ∧ r' = r

variable {P : Owner → Nat → Prop} {α : Type}

theorem growing_rooted : Growing (Rooted P) := fun _ _ h hp => Owned.mono h hp fun _ _ hr => hr

theorem schemaRoot_rooted : Hoare (Rooted P) schemaRoot
    (fun root d => Rooted P d ∧ d.schema.schemaBtree = some root) (Rooted P) := by
  refine Hoare.get_bind fun d hd => ?_
  cases hroot : d.schema.schemaBtree with
  | none => exact Hoare.lift (fun _ heq => by cases heq) fun _ ht => ht ▸ hd
  | some root => exact Hoare.pure.weaken (fun _ ht => ⟨ht ▸ hd, ht ▸ hroot⟩) (fun _ _ ht => ht) fun _ ht => ht

/-- The schema table may get a new root. -/
theorem onSchemaBtree_rooted {root : Nat} {m : BtreeM α} (hm : ∀ n, Keeps (Btree.Moved n root) m) :
    Hoare (fun d => Rooted P d ∧ d.schema.schemaBtree = some root) (onSchemaBtree root m)
      (fun _ => Rooted P) (Rooted P) := by
  refine Hoare.zoom fun d hd => ?_
  have hmoved : ∀ b, Btree.Moved d.pager.pageCount root b → Rooted P { d with
      pager := b.pager
      schema := { d.schema with schemaBtree := some b.rootPage } } := by
    intro b hb
    refine Owned.take hd.1 (o := .table (toLowercase SCHEMA_TABLE_NAME)) (r := b.rootPage) hb.grown ?_
      fun o' r' hr' => ?_
    · rcases hb.root with hsame | hnew
      · exact .inl (.inl (.inr ⟨rfl, hsame ▸ hd.2⟩))
      · exact .inr hnew
    · rcases hr' with hclaim | hP
      · cases o' with
        | index key => exact .inl (.inl hclaim)
        | table key =>
          rcases hclaim with hentry | ⟨hkey, hroot⟩
          · exact .inl (.inl (.inl hentry))
          · exact .inr ⟨congrArg Owner.table hkey, (Option.some.inj hroot).symm⟩
      · exact .inl (.inr hP)
  exact (hm d.pager.pageCount).weaken (fun _ ht => ht ▸ ⟨Nat.le_refl _, .inl rfl⟩) (fun _ b hb => hmoved b hb) hmoved

theorem bumpCookie_rooted : Keeps (Rooted P) bumpCookie := by
  refine Hoare.get_bind fun d hd => ?_
  cases hbump : d.schema.bumpCookie with
  | error e => exact Hoare.lift_bind (fun _ heq => by cases heq) fun _ ht => ht ▸ hd
  | ok schema =>
    have hschema : schema = { d.schema with schemaCookie := d.schema.schemaCookie + 1 } := by
      unfold Schema.bumpCookie at hbump
      split at hbump <;> cases hbump
      rfl
    subst hschema
    refine Hoare.lift_bind (fun s heq => ?_) fun _ ht => ht ▸ hd
    cases heq
    exact fun t ht => Owned.mono hd (Nat.le_refl _) fun o r hr => hr.imp_left fun hc => by cases o <;> exact hc

theorem insertSchemaRow_rooted (fuel : Nat) (name objType : String) (rootPage : Nat) (sql : String) :
    Keeps (Rooted P) (insertSchemaRow fuel name objType rootPage sql) := by
  refine Hoare.bind schemaRoot_rooted fun root => ?_
  have hgrow := (growing_rooted (P := P)).schema fun s => s.schemaBtree = some root
  have hscan := hgrow.onCursor (c := tableCursor root)
    (cursor_grows fun _ hK => BtreeCursor.nextRowid_keeps hK fuel)
  refine Hoare.bind (hscan.weaken (fun _ hd => hd) (fun _ _ hd => hd) fun _ hd => hd.1) fun rowid => ?_
  exact Hoare.lift_bind (fun record _ => onSchemaBtree_rooted fun n => Btree.insert_moved rowid record) fun _ hd => hd.1

/-- A new tree has a page that nobody claims. -/
theorem createBtree_rooted (o : Owner) (pageType : UInt8) : Hoare (Rooted P) (onPager (Btree.createBtree pageType))
    (fun r d => Rooted (Promise P o r) d) (Rooted P) := by
  refine Hoare.zoom fun d hd => ?_
  have hpage : Hoare (fun s => s = d.pager) (Btree.createBtree pageType)
      (fun r s => d.pager.pageCount < r ∧ r ≤ s.pageCount) fun s => d.pager.pageCount ≤ s.pageCount := by
    refine Hoare.bind (Q := fun r s => d.pager.pageCount < r ∧ r ≤ s.pageCount) ?_ fun r => ?_
    · rintro s rfl
      unfold Pager.allocatePage
      rw [bind_ok (get_apply _)]
      by_cases hroom : d.pager.pageCount + 1 < 2 ^ 32
      · rw [if_pos hroom]
        exact ⟨Nat.lt_succ_self _, Nat.le_refl _⟩
      · rw [if_neg hroom]
        exact Nat.le_refl _
    · have hinit := Keeps.and (I := fun _ => d.pager.pageCount < r) (fun s hs => by
        cases Btree.initPage r pageType s <;> exact hs) (Btree.grows_initPage r pageType r)
      exact Hoare.bind (hinit.weaken (fun _ hs => hs) (fun _ _ hs => hs) fun _ hs => hs.1.le.trans hs.2) fun _ =>
        fun _ hs => hs
  refine hpage.weaken (fun _ ht => ht) (fun r s hs => ?_) fun s hs => growing_rooted d s hd hs
  exact Owned.take hd (o := o) (r := r) (hs.1.le.trans hs.2) (.inr hs) fun o' r' hr' =>
    hr'.elim (fun hc => .inl (.inl hc)) fun hp => hp.imp_left .inr

theorem Rooted.forget {d : Db} {o : Owner} {r : Nat} (h : Rooted (Promise P o r) d) : Rooted P d :=
  Owned.mono h (Nat.le_refl _) fun _ _ hr => hr.imp_right .inl

/-- The catalog takes a promised root. -/
theorem Rooted.enter {d d' : Db} {o : Owner} {r : Nat} (h : Rooted (Promise P o r) d)
    (hcount : d.pager.pageCount ≤ d'.pager.pageCount)
    (hclaims : ∀ o' r', d'.Claims o' r' → d.Claims o' r' ∨ o' = o ∧ r' = r) : Rooted P d' := by
  refine Owned.mono h hcount fun o' r' hr' => ?_
  rcases hr' with hc | hp
  · exact (hclaims o' r' hc).imp_right .inr
  · exact .inr (.inl hp)

theorem claims_insert_table {d : Db} {key : String} {t : Schema.Table} {o : Owner} {r : Nat}
    (h : Claims { d with schema := { d.schema with tables := d.schema.tables.insert key t } } o r) :
    d.Claims o r ∨ o = .table key ∧ r = t.rootPage := by
  cases o with
  | index _ => exact .inl h
  | table key' =>
    obtain ⟨t', hlookup, hr⟩ | hschema := h
    swap
    · exact .inl (.inr hschema)
    by_cases hkey : key' = key
    · subst hkey
      rw [AList.lookup_insert] at hlookup
      cases hlookup
      exact .inr ⟨rfl, hr.symm⟩
    · rw [AList.lookup_insert_ne hkey] at hlookup
      exact .inl (.inl ⟨t', hlookup, hr⟩)

theorem claims_erase_table {d : Db} {key : String} {o : Owner} {r : Nat}
    (h : Claims { d with schema := { d.schema with tables := d.schema.tables.erase key } } o r) : d.Claims o r := by
  cases o with
  | index _ => exact h
  | table key' =>
    obtain ⟨t, hlookup, hr⟩ | hschema := h
    swap
    · exact .inr hschema
    refine .inl ⟨t, ?_, hr⟩
    by_cases hkey : key' = key
    · subst hkey
      rw [AList.lookup_erase] at hlookup
      cases hlookup
    · rwa [AList.lookup_erase_ne hkey] at hlookup

theorem claims_insert_index {d : Db} {key : String} {i : Index} {o : Owner} {r : Nat}
    (h : Claims { d with schema := { d.schema with indexes := d.schema.indexes.insert key i } } o r) :
    d.Claims o r ∨ o = .index key ∧ r = i.rootPage := by
  cases o with
  | table _ => exact .inl h
  | index key' =>
    obtain ⟨i', hlookup, hr⟩ := h
    by_cases hkey : key' = key
    · subst hkey
      rw [AList.lookup_insert] at hlookup
      cases hlookup
      exact .inr ⟨rfl, hr.symm⟩
    · rw [AList.lookup_insert_ne hkey] at hlookup
      exact .inl ⟨i', hlookup, hr⟩

theorem createTable_rooted (fuel : Nat) (create : CreateTable) : Keeps (Rooted P) (createTable fuel create) := by
  refine Hoare.bind Keeps.get fun d => ?_
  split
  · split
    · exact Keeps.pure
    · exact Keeps.lift
  · refine Hoare.bind (createBtree_rooted (.table (toLowercase create.name)) _) fun rootPage => ?_
    refine Hoare.bind ((insertSchemaRow_rooted _ _ _ _ _).weaken (fun _ hd => hd) (fun _ _ hd => hd)
      fun _ hd => hd.forget) fun _ => ?_
    refine Hoare.bind (Hoare.modify (R := fun _ => Rooted P) fun d hd => ?_) fun _ => bumpCookie_rooted
    exact hd.enter (Nat.le_refl _) fun o r hr => claims_insert_table hr

theorem createIndex_rooted (fuel : Nat) (create : CreateIndex) : Keeps (Rooted P) (createIndex fuel create) := by
  refine Hoare.bind Keeps.get fun d => ?_
  split
  · split
    · exact Keeps.pure
    · exact Keeps.lift
  · cases d.schema.table create.table with
    | none => exact Keeps.lift
    | some table =>
      dsimp only
      cases create.columns.find? fun col => (table.columnIndex col).isNone with
      | some col => exact Keeps.lift
      | none =>
        refine Hoare.bind (createBtree_rooted (.index (toLowercase create.name)) _) fun rootPage => ?_
        have hgrow := growing_rooted (P := Promise P (.index (toLowercase create.name)) rootPage)
        have hforget : ∀ d : Db, Rooted (Promise P (.index (toLowercase create.name)) rootPage) d → Rooted P d :=
          fun _ hd => hd.forget
        refine Hoare.bind ((hgrow.onCursorKeep (cursor_grows fun _ hK => BtreeCursor.first_keeps hK)).weaken
          (fun _ hd => hd) (fun _ _ hd => hd) hforget) fun (found, c) => ?_
        have hrest := Hoare.bind ((insertSchemaRow_rooted (P := Promise P (.index (toLowercase create.name)) rootPage)
          fuel create.name "index" rootPage (createIndexSql create)).weaken (fun _ hd => hd) (fun _ _ hd => hd) hforget)
          fun _ => Hoare.bind (Hoare.modify (R := fun _ => Rooted P) (f := fun s : Db =>
            { s with schema := { s.schema with
              indexes := s.schema.indexes.insert (toLowercase create.name)
                { name := create.name, table := create.table, columns := create.columns
                  rootPage := rootPage, unique := create.unique } } }) fun d hd =>
            hd.enter (Nat.le_refl _) fun o r hr => claims_insert_index hr) fun _ => bumpCookie_rooted
        dsimp only
        split
        · exact Hoare.bind ((indexRows_growing hgrow _ _ _ _ _).weaken (fun _ hd => hd) (fun _ _ hd => hd) hforget)
            fun _ => hrest
        · exact hrest

theorem dropTable_rooted (name : String) (ifExists : Bool) : Keeps (Rooted P) (dropTable name ifExists) := by
  refine Hoare.get_bind fun d hd => ?_
  split
  · split
    · exact Hoare.pure.weaken (fun _ ht => ht ▸ hd) (fun _ _ ht => ht) fun _ ht => ht
    · exact Hoare.lift (fun _ heq => by cases heq) fun _ ht => ht ▸ hd
  · refine Hoare.bind (Q := fun _ => Rooted P) (fun t ht => ?_) fun _ => bumpCookie_rooted
    exact Owned.mono hd (Nat.le_refl _) fun o r hr => hr.imp_left claims_erase_table

/-- A table gets the root that was claimed for it. -/
theorem setTableRootPage_rooted {name : String} {rootPage : Nat} (hP : P (.table (toLowercase name)) rootPage)
    (fuel : Nat) : Keeps (Rooted P) (setTableRootPage fuel name rootPage) := by
  refine Hoare.get_bind fun d hd => ?_
  cases d.schema.table name with
  | none => exact Hoare.pure.weaken (fun _ ht => ht ▸ hd) (fun _ _ ht => ht) fun _ ht => ht
  | some table =>
    dsimp only
    split
    · exact Hoare.pure.weaken (fun _ ht => ht ▸ hd) (fun _ _ ht => ht) fun _ ht => ht
    · refine Hoare.bind (Q := fun _ => Rooted P) (fun t ht => ?_) fun _ => ?_
      · refine Owned.mono hd (Nat.le_refl _) fun o r hr => ?_
        rcases hr with hc | hp
        · rcases claims_insert_table hc with hold | ⟨rfl, rfl⟩
          · exact .inl hold
          · exact .inr hP
        · exact .inr hp
      · refine Hoare.bind schemaRoot_rooted fun root => ?_
        have hgrow := (growing_rooted (P := P)).schema fun s => s.schemaBtree = some root
        refine Hoare.bind ((hgrow.onCursor (c := tableCursor root) (cursor_grows fun _ hK =>
          BtreeCursor.find_keeps hK (schemaRowOf name rootPage) fuel)).weaken (fun _ hd => hd) (fun _ _ hd => hd)
          fun _ hd => hd.1) fun found => ?_
        cases found with
        | none => exact Hoare.pure.weaken (fun _ hd => hd.1) (fun _ _ hd => hd) fun _ hd => hd
        | some row =>
          cases row with
          | none => exact Hoare.pure.weaken (fun _ hd => hd.1) (fun _ _ hd => hd) fun _ hd => hd
          | some row =>
            exact Hoare.lift_bind (fun record _ => onSchemaBtree_rooted fun n => Btree.replace_moved row.1 record)
              fun _ hd => hd.1

end

end Db

end Sqllite
