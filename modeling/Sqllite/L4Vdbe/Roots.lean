import Sqllite.L3Sql.Roots
import Sqllite.L4Vdbe.Shared

/-!
# The roots of a running statement

A cursor has the root its table had when it was opened, or the one its own insertions gave it.
With the cursors' claims, no instruction leaves a page with two owners (`Vdbe.Rooted`), so
the root that an insertion writes to the catalog is that table's own or a new page.

* `Vdbe.step_rooted`.
-/
namespace Sqllite
open Lib Lib.Run Lib.Span Lib.Machine

namespace Btree

theorem grows_executePragma [Unicode] (name : String) (value : Option String) (schema : Schema) :
    Grows (executePragma name value schema) := by
  intro k
  unfold executePragma
  dsimp only
  split
  · cases value with
    | none => exact Keeps.bind Keeps.get fun _ => Keeps.pure
    | some mode => exact Keeps.bind Keeps.lift fun _ => Keeps.bind (grows_setJournalMode _ k) fun _ => Keeps.pure
  · split
    · cases value with
      | none => exact Keeps.bind Keeps.get fun _ => Keeps.pure
      | some size =>
        unfold executePageSize
        dsimp only
        split
        · exact Keeps.lift
        · split
          · exact Keeps.lift
          · exact Keeps.bind (grows_setPageSize _ k) fun _ => Keeps.pure
    · split
      · exact Keeps.lift
      · exact Keeps.lift

end Btree

namespace Vdbe

section
variable [Unicode]

/-- The claims of the cursors, for the table each is on. -/
def CursorClaims (cursors : Lib.Table Int CursorState) (o : Owner) (r : Nat) : Prop :=
  ∃ id cs, cursors.lookup id = some cs ∧ cs.rootPage = r ∧ o = .table (toLowercase cs.table)

/-- The roots of the catalog and of the cursors: a cursor has no root of another tree. -/
def Rooted (s : Machine) : Prop := s.toDb.Rooted (CursorClaims s.cursors)

variable {α : Type}

theorem claims_insert_cursor {cursors : Lib.Table Int CursorState} {id : Int} {cs : CursorState} {o : Owner} {r : Nat}
    (h : CursorClaims (cursors.insert id cs) o r) :
    CursorClaims cursors o r ∨ o = .table (toLowercase cs.table) ∧ r = cs.rootPage := by
  obtain ⟨id', cs', hlookup, hroot, howner⟩ := h
  by_cases hid : id' = id
  · subst hid
    rw [AList.lookup_insert] at hlookup
    cases hlookup
    exact .inr ⟨howner, hroot.symm⟩
  · rw [AList.lookup_insert_ne hid] at hlookup
    exact .inl ⟨id', cs', hlookup, hroot, howner⟩

theorem local_rooted : Local Rooted := by
  intro s t hdb hcursors hs
  unfold Rooted
  rw [hdb, hcursors]
  exact hs

theorem onPager_rooted {m : PagerM α} (hm : Btree.Grows m) : Keeps Rooted (onPager m) :=
  Hoare.zoom fun s hs => (hm s.pager.pageCount).weaken (fun _ ht => ht ▸ Nat.le_refl _)
    (fun _ _ ht => Db.growing_rooted s.toDb _ hs ht) fun _ ht => Db.growing_rooted s.toDb _ hs ht

theorem onDb_rooted {m : DbM α} (hm : ∀ P, Keeps (Db.Rooted P) m) : Keeps Rooted (onDb m) :=
  Hoare.zoom fun s hs => (hm (CursorClaims s.cursors)).weaken (fun _ ht => ht ▸ hs) (fun _ _ ht => ht) fun _ ht => ht

/-- A cursor is opened on the root that the catalog has. -/
theorem openTable_rooted (id : Int) (p4 : InsnP4) : Keeps Rooted (openTable id p4) := by
  unfold openTable
  cases p4 with
  | string tableName =>
    refine Hoare.get_bind fun s hs => ?_
    cases htable : s.schema.table tableName with
    | none => exact Hoare.lift (fun _ heq => by cases heq) fun _ ht => ht ▸ hs
    | some table =>
      dsimp only
      refine Hoare.bind (Q := fun _ => Rooted) (fun _ _ => ?_) fun _ => Keeps.pure
      refine Owned.mono hs (Nat.le_refl _) fun o r hr => ?_
      rcases hr with hclaim | hcursor
      · exact .inl hclaim
      · rcases claims_insert_cursor hcursor with hold | ⟨rfl, rfl⟩
        · exact .inr hold
        · exact .inl (.inl ⟨table, htable, rfl⟩)
  | _ => exact Keeps.lift

theorem onCursor_rooted {id : Int} {cs : CursorState} {m : CursorM α} (hm : BtreeCursor.Reading m) :
    Hoare (Holding Rooted id cs) (onCursor id cs m) (fun _ => Rooted) Rooted := by
  refine Hoare.zoom fun s hs => ?_
  have hread : ∀ c : BtreeCursor, s.pager.pageCount ≤ c.btree.pager.pageCount →
      Rooted { s with pager := c.btree.pager, cursors := s.cursors.insert id { cs with cursor := c.detach } } := by
    refine fun c hc => Owned.mono hs.1 hc fun o r hr => hr.imp_right fun hcursor => ?_
    rcases claims_insert_cursor hcursor with hold | ⟨rfl, rfl⟩
    · exact hold
    · exact ⟨id, cs, hs.2, rfl, rfl⟩
  exact (Db.cursor_grows hm s.pager.pageCount).weaken (fun _ ht => ht ▸ Nat.le_refl _) (fun _ => hread) hread

/-- The root of a cursor moves to a new page or stays. -/
theorem onBtree_rooted {id : Int} {cs : CursorState} {m : BtreeM α} (hm : ∀ n, Keeps (Btree.Moved n cs.rootPage) m) :
    Hoare (Holding Rooted id cs) (onBtree id cs m) (fun _ => Rooted) Rooted := by
  refine Hoare.zoom fun s hs => ?_
  have hmoved : ∀ b, Btree.Moved s.pager.pageCount cs.rootPage b →
      Rooted { s with pager := b.pager, cursors := s.cursors.insert id { cs with rootPage := b.rootPage } } := by
    intro b hb
    refine Owned.take hs.1 (o := .table (toLowercase cs.table)) (r := b.rootPage) hb.grown ?_ fun o r hr => ?_
    · rcases hb.root with hsame | hnew
      · exact .inl (.inr ⟨id, cs, hs.2, hsame.symm, rfl⟩)
      · exact .inr hnew
    · rcases hr with hclaim | hcursor
      · exact .inl (.inl hclaim)
      · rcases claims_insert_cursor hcursor with hold | hnew
        · exact .inl (.inr hold)
        · exact .inr hnew
  exact (hm s.pager.pageCount).weaken (fun _ ht => ht ▸ ⟨Nat.le_refl _, .inl rfl⟩) (fun _ => hmoved) hmoved

/-- The root that an insertion answers is claimed by its cursor. -/
theorem onBtree_claims {id : Int} {cs : CursorState} (m : BtreeM Unit) : Hoare (fun _ => True)
    (onBtree id cs (do m; let b ← get; pure b.rootPage))
    (fun root s => CursorClaims s.cursors (.table (toLowercase cs.table)) root) fun _ => True := by
  refine Hoare.zoom fun s _ => ?_
  refine Hoare.bind (Q := fun _ _ => True) (fun t _ => by cases m t <;> trivial) fun _ => ?_
  exact fun b _ => ⟨id, { cs with rootPage := b.rootPage }, AList.lookup_insert _, rfl, rfl⟩

theorem countChange_rooted : Keeps Rooted countChange := by
  refine get_keeps fun s hs => ?_
  split
  · exact set_keeps (local_rooted s _ rfl rfl hs)
  · exact Keeps.lift

theorem executeInsert_rooted (fuel : Nat) (insn : Insn) (cs : CursorState) :
    Hoare (Holding Rooted insn.p2 cs) (executeInsert fuel insn cs) (fun _ => Rooted) Rooted := by
  refine Hoare.get_bind fun s hs => Hoare.lift_bind (fun rowid _ => Hoare.lift_bind (fun record _ => ?_)
    fun _ ht => ht ▸ hs.1) fun _ ht => ht ▸ hs.1
  have hrest : ∀ root, Hoare (fun t => Rooted t ∧ CursorClaims t.cursors (.table (toLowercase cs.table)) root)
      (do
        onDb (Db.setTableRootPage fuel cs.table root)
        countChange
        modify fun s => { s with lastRowid := rowid }
        pure .continue : VdbeM StepResult) (fun _ => Rooted) Rooted := by
    refine fun root => Hoare.bind (Q := fun _ => Rooted) (Hoare.zoom fun t ht => ?_) fun _ => ?_
    · exact (Db.setTableRootPage_rooted ht.2 fuel).weaken (fun _ hd => hd ▸ ht.1) (fun _ _ hd => hd) fun _ hd => hd
    · exact Keeps.bind countChange_rooted fun _ =>
        Keeps.bind (local_rooted.modify (fun _ => rfl) fun _ => rfl) fun _ => Keeps.pure
  have htree : ∀ m : BtreeM Unit, (∀ n, Keeps (Btree.Moved n cs.rootPage) m) → Hoare (fun t => t = s)
      (onBtree insn.p2 cs (do m; let b ← get; pure b.rootPage))
      (fun root t => Rooted t ∧ CursorClaims t.cursors (.table (toLowercase cs.table)) root) Rooted := fun m hm =>
    ((onBtree_rooted fun n => Keeps.bind (hm n) fun _ => Keeps.bind Keeps.get fun _ => Keeps.pure).and
      (onBtree_claims m)).weaken (fun _ ht => ht ▸ ⟨hs, trivial⟩) (fun _ _ ht => ht) fun _ ht => ht.1
  by_cases hp : insn.p5 ≠ 0
  · have hrun := Hoare.bind (htree (Btree.replace rowid record) fun n => Btree.replace_moved rowid record) hrest
    simpa only [if_pos hp] using hrun
  · have hrun := Hoare.bind (htree (Btree.insert rowid record) fun n => Btree.insert_moved rowid record) hrest
    simpa only [if_neg hp] using hrun

theorem executeDelete_rooted (id : Int) (cs : CursorState) :
    Hoare (Holding Rooted id cs) (executeDelete id cs) (fun _ => Rooted) Rooted := by
  unfold executeDelete
  cases cs.cursor.currentKey with
  | none => exact Hoare.pure.weaken (fun _ hs => hs.1) (fun _ _ hs => hs) fun _ hs => hs
  | some rowid =>
    exact Hoare.bind (onBtree_rooted fun n => Btree.delete_moved rowid) fun _ =>
      Keeps.bind countChange_rooted fun _ => Keeps.pure

theorem executePragmaInsn_rooted (p4 : InsnP4) : Keeps Rooted (executePragmaInsn p4) := by
  cases p4 with
  | pragma name value =>
    refine Keeps.bind Keeps.get fun s => Keeps.bind (onPager_rooted (Btree.grows_executePragma _ _ _)) fun rows =>
      Keeps.bind (local_rooted.modify (fun _ => rfl) fun _ => rfl) fun _ => ?_
    split
    · exact Keeps.pure
    · exact Keeps.bind (local_rooted.emitPragmaRow 0) fun _ =>
        Keeps.bind (local_rooted.modify (fun _ => rfl) fun _ => rfl) fun _ => Keeps.pure
  | _ => exact Keeps.pure

/-- No instruction gives one root to two trees. -/
theorem acts_rooted (fuel : Nat) (insn : Insn) : Acts Rooted fuel insn where
  begins := fun _ => onPager_rooted Btree.grows_begin
  opens := fun _ => openTable_rooted _ _
  moves := fun _ _ hm => onCursor_rooted hm
  scans := fun _ _ hm => onDb_rooted fun _ => Db.growing_rooted.onCursor (Db.cursor_grows hm)
  inserts := fun _ => executeInsert_rooted fuel insn
  deletes := fun _ => executeDelete_rooted _
  pragma := fun _ => executePragmaInsn_rooted _

theorem step_rooted (fuel : Nat) : Keeps Rooted (Vdbe.step fuel) := by
  refine Hoare.fix fun s hs => ?_
  have hprog : Keeps (fun t => Rooted t ∧ Runs s.program t) (Vdbe.step fuel) :=
    step_acts local_rooted (fun insn _ fuel => acts_rooted fuel insn) fuel
  refine hprog.weaken (fun t ht => ?_) (fun _ _ ht => ht.1) fun _ ht => ht.1
  subst ht
  exact ⟨hs, rfl⟩

end

end Vdbe

end Sqllite
