import Sqllite.L2Storage.OneRow
import Sqllite.L3Sql.CatalogKeeps
import Sqllite.L3Sql.Rowids
import Sqllite.L4Vdbe.Exec

/-!
# New row ids after deletions

`allocate_rowid` takes the largest key a scan meets and adds one. The scan ends at the first
empty leaf, so behind deletions the new row id can be one that the table has, or a lesser one.

* `Btree.newRowid_spec`: the new row id of a table.
* `Btree.rowid_above_iff`: where it is above all others, after any deletions and insertions.
-/
namespace Sqllite
open Lib Lib.Run Lib.Span Lib.Machine

/-! ## What the scan meets -/

section
variable {leaves : List Leaf} {rows : List Row} {m key : Int}

theorem largestKey_cases : ∀ (rows : List Row) (m : Int), largestKey m rows = m ∨ ∃ r ∈ rows, largestKey m rows = r.1
  | [], _ => .inl rfl
  | r :: rows, m => by
    have hstep : largestKey m (r :: rows) = largestKey (max m r.1) rows := rfl
    rw [hstep]
    rcases largestKey_cases rows (max m r.1) with heq | ⟨r', hmem, heq⟩
    · rcases max_choice m r.1 with hm | hr
      · exact .inl (heq.trans hm)
      · exact .inr ⟨r, List.mem_cons_self, heq.trans hr⟩
    · exact .inr ⟨r', List.mem_cons_of_mem _ hmem, heq⟩

/-- The rows are those in front of the first empty leaf and those behind it. -/
theorem scanned_append : ∀ leaves : List Leaf, scanned leaves ++ (unscanned leaves).flatMap (·.rows) = leaves.flatMap (·.rows)
  | [] => rfl
  | l :: leaves => by
    rw [scanned, unscanned, List.flatMap_cons]
    by_cases hl : l.cells = []
    · rw [if_pos hl, if_pos hl, Leaf.rows, hl]
      rfl
    · rw [if_neg hl, if_neg hl, List.append_assoc, scanned_append leaves]

/-- The keys ascend, so a key behind the first empty leaf is the largest one so far, unless it is
no positive one. -/
theorem above_iff (hsorted : (leaves.flatMap (·.keys)).Pairwise (· < ·)) :
    (∀ row ∈ leaves.flatMap (·.rows), row.1 < largestKey 0 (scanned leaves) + 1) ↔
      ∀ l ∈ unscanned leaves, ∀ key ∈ l.keys, key ≤ 0 := by
  rw [flatMap_keys, ← scanned_append, List.map_append] at hsorted
  obtain ⟨-, -, hbetween⟩ := List.pairwise_append.mp hsorted
  rw [← scanned_append]
  constructor
  · intro habove l hl key hkey
    obtain ⟨c, hc, rfl⟩ := List.mem_map.mp hkey
    have hrow : c.val ∈ (unscanned leaves).flatMap (·.rows) := List.mem_flatMap.mpr ⟨l, hl, List.mem_map_of_mem hc⟩
    have hle := Int.le_of_lt_add_one (habove c.val (List.mem_append_right _ hrow))
    rcases largestKey_cases (scanned leaves) 0 with heq | ⟨r, hr, heq⟩
    · exact heq ▸ hle
    · have hlt := hbetween r.1 (List.mem_map_of_mem hr) c.val.1 (List.mem_map_of_mem hrow)
      omega
  · intro hbehind row hrow
    rcases List.mem_append.mp hrow with hrow | hrow
    · exact Int.lt_add_one_of_le (key_le_largestKey hrow)
    · obtain ⟨l, hl, hmem⟩ := List.mem_flatMap.mp hrow
      obtain ⟨c, hc, rfl⟩ := List.mem_map.mp hmem
      have hle := hbehind l hl c.key (List.mem_map_of_mem hc)
      exact Int.lt_add_one_of_le (Int.le_trans hle (le_largestKey _ 0))

end

/-! ## One allocation -/

section
open Btree
variable {b : Btree} {leaves : List Leaf} {t : Pager}

/-- Reads leave the tree as it is. -/
theorem Sound.reads (h : Sound b leaves) (ht : b.pager.Reads t) : Sound { b with pager := t } leaves := by
  have hw := ht.writes h.ready
  obtain ⟨n, htree⟩ := h.tree.tree
  refine ⟨ht.ready h.ready, h.size.writes hw, h.flags, ht.pageCount ▸ h.pages, ⟨⟨n, ?_⟩, h.tree.distinct, h.tree.sorted⟩, h.built⟩
  exact htree.frame (fun p cells right hint => hint.writes hw List.not_mem_nil)
    fun l hl => (htree.leafAt l hl).writes hw List.not_mem_nil

/-- A deletion takes the key out of its leaf. -/
theorem Sound.delete (h : Sound b leaves) (key : Int) : ∃ found t, delete key b = .ok found { b with pager := t } ∧
    Sound { b with pager := t } (leaves.map (·.keep (· ≠ key))) := by
  obtain ⟨l, hl, found, t, hrun, -, -, hw, hleaf, hothers⟩ := delete_spec h.ready h.flags h.tree key
  refine ⟨found, t, hrun, hw.ready, h.size.writes hw, h.flags, Nat.le_trans h.pages hw.pageCount,
    h.tree.without hl hw hleaf hothers, fun x hx c hc => ?_⟩
  obtain ⟨y, hy, rfl⟩ := List.mem_map.mp hx
  exact h.built y hy c (List.mem_filter.mp hc).1

end

namespace Btree

section
variable {b : Btree} {leaves : List Leaf} {t : Pager}

/-- The scan of `allocate_rowid`. -/
def newRowid (fuel : Nat) : BtreeM Int :=
  zoom cursor (fun c b => { b with pager := c.btree.pager }) (BtreeCursor.nextRowid fuel)

/-- The scan reads pages only. -/
theorem newRowid_reads (hs : b.pager.Ready) {fuel : Nat} {k : Int} {b' : Btree} (hrun : newRowid fuel b = .ok k b') :
    ∃ t, b' = { b with pager := t } ∧ b.pager.Reads t := by
  have hreads : BtreeCursor.OnReads fun x => b.pager.Reads x.pager := by
    refine fun p c hc => ?_
    unfold BtreeCursor.onPager zoom
    dsimp only
    rw [Pager.getPage_eq (hc.ready hs).wal]
    cases hv : c.btree.pager.view p with
    | ok d => exact hc.trans (Pager.view_touch hv)
    | error e => exact hc
  obtain ⟨c, hcursor, rfl⟩ := of_zoom_ok hrun
  have hkeeps := BtreeCursor.nextRowid_keeps hreads fuel (cursor b) (Pager.Reads.refl b.pager)
  rw [hcursor] at hkeeps
  exact ⟨_, rfl, hkeeps⟩

/-- The new row id is the one behind the largest key in front of the first empty leaf. -/
theorem newRowid_spec (h : Sound b leaves) {fuel : Nat} (hfuel : (leaves.flatMap (·.rows)).length ≤ fuel) :
    ∃ t, newRowid fuel b = .ok (largestKey 0 (scanned leaves) + 1) { b with pager := t } ∧ b.pager.Reads t := by
  obtain ⟨n, htree⟩ := h.tree.tree
  obtain ⟨c', hy, -⟩ := BtreeCursor.scan_spec h.ready (c := cursor b) (Pager.Reads.refl _) h.flags htree
  have hlen : (scanned leaves).length ≤ fuel := by
    rw [← scanned_append, List.length_append] at hfuel
    exact Nat.le_trans (Nat.le_add_right _ _) hfuel
  have hsmall : largestKey 0 (scanned leaves) ≤ 2 ^ 56 := by
    refine largestKey_le (by decide) fun r hr => ?_
    have hr' : r ∈ leaves.flatMap (·.rows) := scanned_append leaves ▸ List.mem_append_left _ hr
    obtain ⟨l, hl, hmem⟩ := List.mem_flatMap.mp hr'
    obtain ⟨c, hc, rfl⟩ := List.mem_map.mp hmem
    exact Int.le_of_lt (h.built l hl c hc).1.2
  have hnext : BtreeCursor.nextRowid fuel (cursor b) = .ok (largestKey 0 (scanned leaves) + 1) c' := by
    unfold BtreeCursor.nextRowid
    rw [bind_ok (BtreeCursor.scan_maxKey hy hlen), if_pos (by omega)]
    rfl
  have hrun : newRowid fuel b = .ok (largestKey 0 (scanned leaves) + 1) { b with pager := c'.btree.pager } := zoom_ok hnext
  obtain ⟨t, heq, ht⟩ := newRowid_reads h.ready hrun
  exact ⟨t, heq ▸ hrun, ht⟩

end

end Btree

open Vdbe in
/-- `allocate_rowid` of a cursor on the tree. -/
theorem Vdbe.allocateRowid_eq {b : Btree} {k : Int} {t : Pager} {fuel : Nat} (hf : b.flags = tableFlags)
    (hrun : Btree.newRowid fuel b = .ok k { b with pager := t }) {s : Machine} {id : Int} {cs : CursorState}
    (hcs : s.cursors.lookup id = some cs) (hroot : cs.rootPage = b.rootPage) (hpager : s.pager = b.pager) :
    allocateRowid fuel id s = .ok k { s with pager := t } := by
  obtain ⟨c, hcursor, heq⟩ := of_zoom_ok hrun
  have hat : (tableCursor cs.rootPage).attach s.pager = b.cursor := by
    rw [tableCursor_attach, hroot, hpager, ← hf]
  obtain rfl : t = c.btree.pager := congrArg Btree.pager heq
  unfold allocateRowid
  rw [bind_ok (get_apply s), hcs]
  have hnext : BtreeCursor.nextRowid fuel ((tableCursor cs.rootPage).attach s.pager) = .ok k c := hat ▸ hcursor
  have hdb : Db.onCursor (tableCursor cs.rootPage) (BtreeCursor.nextRowid fuel) s.toDb =
      .ok k { s.toDb with pager := c.btree.pager } := zoom_ok hnext
  exact zoom_ok hdb

/-! ## Runs -/

/-- `Delete`, or `NewRowid` and then `Insert`, on the table's tree. -/
inductive RowStep where
  | delete (key : Int)
  | insertNew (record : Bytes)

namespace RowStep

def run (fuel : Nat) : RowStep → BtreeM Unit
  | .delete key => do
    let _ ← Btree.delete key
    pure ()
  | .insertNew record => do
    let key ← Btree.newRowid fuel
    Btree.insert key record

/-- The row that is inserted fits where it comes, and its key can be read again. -/
def Fits (fuel : Nat) (b : Btree) : RowStep → Prop
  | .delete _ => True
  | .insertNew record => record.length < 2 ^ 63 ∧ ∀ key b', Btree.newRowid fuel b = .ok key b' →
    KeyOk key ∧ Btree.Fits b' (key, record)

end RowStep

/-- The tree behind these steps; one that fails is the end of a statement, not of the run. -/
def afterSteps (fuel : Nat) (steps : List RowStep) (b : Btree) : Btree :=
  steps.foldl (fun b st => post (st.run fuel) b) b

/-- Every row of the run fits where it comes. -/
def StepsFit (fuel : Nat) : Btree → List RowStep → Prop
  | _, [] => True
  | b, st :: steps => st.Fits fuel b ∧ StepsFit fuel (post (st.run fuel) b) steps

section
open Btree

/-- A step leaves a tree, with one row more at most. -/
theorem Sound.step {b : Btree} {leaves : List Leaf} (h : Sound b leaves) {fuel : Nat} {st : RowStep}
    (hfuel : (leaves.flatMap (·.rows)).length ≤ fuel) (hfit : st.Fits fuel b) :
    ∃ leaves', Sound (post (st.run fuel) b) leaves' ∧ (leaves'.flatMap (·.rows)).length ≤ (leaves.flatMap (·.rows)).length + 1 := by
  cases st with
  | delete key =>
    obtain ⟨found, t, hrun, hsound⟩ := h.delete key
    have hstep : (RowStep.delete key).run fuel b = .ok () { b with pager := t } := bind_ok hrun _
    rw [post_ok hstep]
    refine ⟨_, hsound, ?_⟩
    rw [List.flatMap_map]
    simp only [Leaf.keep_rows]
    rw [← List.filter_flatMap]
    exact Nat.le_trans (List.length_filter_le _ _) (Nat.le_succ _)
  | insertNew record =>
    obtain ⟨t, hnew, ht⟩ := newRowid_spec h hfuel
    generalize largestKey 0 (scanned leaves) + 1 = key at hnew
    obtain ⟨hlen, hfit⟩ := hfit
    obtain ⟨hk, hfits⟩ := hfit key _ hnew
    have hsound := h.reads ht
    have hrun : (RowStep.insertNew record).run fuel b = Btree.insert key record { b with pager := t } := bind_ok hnew _
    by_cases hin : key ∈ leaves.flatMap (·.keys)
    · -- the key is there: the insertion is refused, and nothing is changed
      obtain ⟨t', hrefused, ht'⟩ := (refusesRow_iff hsound.ready hsound.flags hsound.tree hin hlen).mpr hk.1
      rw [post_error (hrun.trans hrefused)]
      exact ⟨leaves, hsound.reads ht', Nat.le_succ _⟩
    · obtain ⟨b', leaves', hins, hafter, -⟩ := insertTableRow_spec hsound (show KeyOk ((key, record) : Row).1 from hk) hlen hin hfits
      rw [← insert_eq hsound.flags (key, record)] at hins
      rw [post_ok (hrun.trans hins)]
      exact ⟨leaves', hafter.sound, Nat.le_of_eq hafter.rows.length_eq⟩

theorem Sound.steps {fuel : Nat} : ∀ (steps : List RowStep) {b : Btree} {leaves : List Leaf}, Sound b leaves →
    (leaves.flatMap (·.rows)).length + steps.length ≤ fuel → StepsFit fuel b steps →
    ∃ leaves', Sound (afterSteps fuel steps b) leaves' ∧ (leaves'.flatMap (·.rows)).length ≤ fuel
  | [], b, leaves, h, hfuel, _ => ⟨leaves, h, hfuel⟩
  | st :: steps, b, leaves, h, hfuel, hfit => by
    rw [List.length_cons] at hfuel
    obtain ⟨leaves', hstep, hlen⟩ := h.step (by omega) hfit.1
    exact Sound.steps steps hstep (by omega) hfit.2

end

namespace Btree

/-- A machine with one cursor, on the table. -/
def openedOn (b : Btree) : Machine where
  toVdbe := { Vdbe.new .new with
    cursors := (∅ : Lib.Table Int CursorState).insert 0 ⟨b.rootPage, tableCursor b.rootPage, ""⟩ }
  toDb := ⟨b.pager, Schema.new⟩

/-- The new row id behind insertions and these steps, and whether the key is in the table. -/
def rowidAfter (rows : List Row) (steps : List RowStep) (key : Int) : Option (Int × Bool) :=
  match inserts rows newTable with
  | .ok _ b =>
    match Vdbe.allocateRowid rows.length 0 (openedOn (afterSteps rows.length steps b)),
      BtreeCursor.seek key (afterSteps rows.length steps b).cursor with
    | .ok k _, .ok found _ => some (k, found)
    | _, _ => none
  | .error _ _ => none

-- Where only the largest row is deleted the new row id is one above the next.
example : rowidAfter (twelveRows.take 8) [.delete 80] 70 = some (71, true) := by decide +kernel

end Btree

end Sqllite
