import Sqllite.L2Storage.PageReads
import Sqllite.L2Storage.PagerView

/-!
# What a cursor does on one page

A page of a table is a leaf with rows (`LeafReads`) or a branch with children
(`BranchReads`), whatever else stands on it. Each lemma is one turn of a loop of the
cursor on such a page.

* `descendLeftmostFrom_leaf`, `descendLeftmostFrom_branch`: a descent.
* `popToNextLeaf_done`, `popToNextLeaf_turn`: the way back up.
* `readCurrent_reads`: the entry of a leaf.
-/
namespace Sqllite
open Lib.Run Lib.Span Lib.Slotted

/-- Page `p` is a leaf of a table, from which these rows are read. -/
def LeafReads (s : Pager) (p : Nat) (rows : List (Int × Bytes)) : Prop :=
  ∃ d, s.view p = .ok d ∧ byteAt d (pageHeaderOffset p) = .ok PAGE_TYPE_LEAF_TABLE ∧
    ∀ i, entryAt tableFlags p d i = .ok rows[i]?

/-- Page `p` is an interior page of a table, from which these children are read. -/
def BranchReads (s : Pager) (p : Nat) (kids : List Nat) : Prop :=
  ∃ d, s.view p = .ok d ∧ byteAt d (pageHeaderOffset p) = .ok PAGE_TYPE_INTERIOR_TABLE ∧
    ∀ i, siblingAt p d i = .ok kids[i]?

section
variable {s : Pager} {p : Nat} {rows : List (Int × Bytes)} {kids kids' : List Nat}

theorem LeafReads.not_branch (h : LeafReads s p rows) (g : BranchReads s p kids) : False := by
  obtain ⟨d, hd, ht, -⟩ := h
  obtain ⟨d', hd', ht', -⟩ := g
  obtain rfl : d = d' := by rw [hd] at hd'; exact Except.ok.inj hd'
  rw [ht] at ht'
  exact absurd (Except.ok.inj ht') (by decide)

theorem BranchReads.unique (h : BranchReads s p kids) (g : BranchReads s p kids') : kids = kids' := by
  obtain ⟨d, hd, -, hk⟩ := h
  obtain ⟨d', hd', -, hk'⟩ := g
  obtain rfl : d = d' := by rw [hd] at hd'; exact Except.ok.inj hd'
  exact List.ext_getElem? fun i => Except.ok.inj ((hk i).symm.trans (hk' i))

end

/-- The leftmost child is the one of the first slot. -/
theorem leftmostChild_eq (d : Bytes) (h : Nat) :
    BtreeCursor.leftmostChild d h = childPageAtSlot d h 0 := by
  unfold BtreeCursor.leftmostChild childPageAtSlot
  refine congrArg _ (funext fun count => ?_)
  rcases Nat.eq_zero_or_pos count with rfl | hpos
  · rw [if_pos rfl, if_neg (Nat.lt_irrefl 0), if_pos rfl]
  · rw [if_neg (by omega), if_pos hpos]

namespace BtreeCursor

/-- The cursor with another stack, after reads of its pager. -/
def moved (c : BtreeCursor) (stack : List CursorFrame) (t : Pager) : BtreeCursor :=
  { c with stack := stack, btree := { c.btree with pager := t } }

/-- The cursor with an entry, if there is one. -/
def entered (c : BtreeCursor) : Option (Int × Bytes) → BtreeCursor
  | some row => { c with currentKey := some row.1, currentRecord := some row.2 }
  | none => c

section
variable {s : Pager} {c : BtreeCursor} {p : Nat} {rows : List (Int × Bytes)} {kids : List Nat}

theorem onPager_getPage (hw : s.WalReady) (hr : s.Reads c.btree.pager) {d : Bytes}
    (hv : s.view p = .ok d) :
    ∃ page t, onPager (Pager.getPage p) c = .ok page (c.moved c.stack t) ∧ page.data = d ∧
      s.Reads t := by
  have hwt : c.btree.pager.WalReady := by
    obtain ⟨⟨cache, heq⟩, -⟩ := hr
    rw [heq]
    exact hw
  have hget := Pager.getPage_eq hwt p
  rw [hr.view p, hv] at hget
  exact ⟨_, _, zoom_ok hget, rfl, hr.trans (Pager.view_touch ((hr.view p).trans hv))⟩

/-! ## Descents -/

theorem descendLeftmostFrom_leaf (hw : s.WalReady) (hr : s.Reads c.btree.pager)
    (h : LeafReads s p rows) (n : Nat) :
    ∃ t, descendLeftmostFrom (n + 1) p c = .ok p (c.moved c.stack t) ∧ s.Reads t := by
  obtain ⟨d, hd, htype, -⟩ := h
  obtain ⟨page, t, hg, rfl, ht⟩ := onPager_getPage hw hr hd
  refine ⟨t, ?_, ht⟩
  rw [descendLeftmostFrom, bind_ok hg]
  change (lift (byteAt page.data (pageHeaderOffset p)) >>= _) _ = _
  rw [htype, bind_ok (lift_ok _ _), if_pos (by decide)]
  rfl

theorem descendLeftmostFrom_branch (hw : s.WalReady) (hr : s.Reads c.btree.pager)
    (h : BranchReads s p kids) {child : Nat} (hchild : kids[0]? = some child) (n : Nat) :
    ∃ t, descendLeftmostFrom (n + 1) p c =
      descendLeftmostFrom n child (c.moved ({ pgno := p, childSlot := 0 } :: c.stack) t) ∧
      s.Reads t := by
  obtain ⟨d, hd, htype, hkids⟩ := h
  obtain ⟨page, t, hg, rfl, ht⟩ := onPager_getPage hw hr hd
  have hleft : leftmostChild page.data (pageHeaderOffset p) = .ok child := by
    have h0 := hkids 0
    rw [hchild, siblingAt] at h0
    obtain ⟨count, -, h0⟩ := Res.bind_eq_ok.mp h0
    rw [if_pos (Nat.zero_le _)] at h0
    obtain ⟨child', hc, h0⟩ := Res.bind_eq_ok.mp h0
    cases h0
    rw [leftmostChild_eq, hc]
  refine ⟨t, ?_, ht⟩
  rw [descendLeftmostFrom, bind_ok hg]
  change (lift (byteAt page.data (pageHeaderOffset p)) >>= _) _ = _
  rw [htype, bind_ok (lift_ok _ _), if_neg (by decide), if_pos (by decide), hleft,
    bind_ok (lift_ok _ _), bind_ok (modify_apply _ _)]
  rfl

/-! ## The way back up -/

section
variable {f : CursorFrame} (stack : List CursorFrame)

/-- A frame without another child is left. -/
theorem popToNextLeaf_done (hw : s.WalReady) (hr : s.Reads c.btree.pager)
    (h : BranchReads s f.pgno kids) (hdone : kids[f.childSlot + 1]? = none) :
    ∃ t, popToNextLeaf (f :: stack) c = popToNextLeaf stack (c.moved stack t) ∧ s.Reads t := by
  obtain ⟨d, hd, -, hkids⟩ := h
  obtain ⟨page, t, hg, rfl, ht⟩ := onPager_getPage (c := c.moved stack c.btree.pager) hw hr hd
  have hnone := hkids (f.childSlot + 1)
  rw [hdone, siblingAt] at hnone
  obtain ⟨count, hcount, hnone⟩ := Res.bind_eq_ok.mp hnone
  refine ⟨t, ?_, ht⟩
  rw [popToNextLeaf, bind_ok (modify_apply _ _)]
  refine (bind_ok hg _).trans ?_
  dsimp only
  rw [hcount, bind_ok (lift_ok _ _)]
  by_cases hle : f.childSlot + 1 ≤ count
  · rw [if_pos hle] at hnone
    obtain ⟨child, -, hnone⟩ := Res.bind_eq_ok.mp hnone
    cases hnone
  · rw [if_neg hle]
    rfl

/-- A frame with another child is where the descent to the next leaf starts. -/
theorem popToNextLeaf_turn (hw : s.WalReady) (hr : s.Reads c.btree.pager)
    (h : BranchReads s f.pgno kids) {child : Nat} (hchild : kids[f.childSlot + 1]? = some child) :
    ∃ t, popToNextLeaf (f :: stack) c =
      (descendLeftmostFrom (Btree.fuel s) child >>= fun leaf => pure (some leaf))
        (c.moved ({ pgno := f.pgno, childSlot := f.childSlot + 1 } :: stack) t) ∧ s.Reads t := by
  obtain ⟨d, hd, -, hkids⟩ := h
  obtain ⟨page, t, hg, rfl, ht⟩ := onPager_getPage (c := c.moved stack c.btree.pager) hw hr hd
  have hsome := hkids (f.childSlot + 1)
  rw [hchild, siblingAt] at hsome
  obtain ⟨count, hcount, hsome⟩ := Res.bind_eq_ok.mp hsome
  have hfuel : Btree.fuel t = Btree.fuel s := by rw [Btree.fuel, ht.pageCount, Btree.fuel]
  refine ⟨t, ?_, ht⟩
  rw [popToNextLeaf, bind_ok (modify_apply _ _)]
  refine (bind_ok hg _).trans ?_
  dsimp only
  rw [hcount, bind_ok (lift_ok _ _)]
  by_cases hle : f.childSlot + 1 ≤ count
  · rw [if_pos hle] at hsome
    obtain ⟨child', hc, hsome⟩ := Res.bind_eq_ok.mp hsome
    cases hsome
    rw [if_pos hle, bind_ok (modify_apply _ _), hc, bind_ok (lift_ok _ _), bind_ok (get_apply _),
      ← hfuel]
    rfl
  · rw [if_neg hle] at hsome
    cases hsome

end

/-! ## Entries -/

theorem readCurrent_reads (hw : s.WalReady) (hr : s.Reads c.btree.pager)
    (hf : c.btree.flags = tableFlags) (h : LeafReads s c.leafPgno rows) :
    ∃ t, readCurrent c = .ok (rows[c.cellIndex]?).isSome
      ((c.moved c.stack t).entered rows[c.cellIndex]?) ∧ s.Reads t := by
  obtain ⟨d, hd, -, hrows⟩ := h
  obtain ⟨page, t, hg, rfl, ht⟩ := onPager_getPage hw hr hd
  have hrow := hrows c.cellIndex
  rw [entryAt] at hrow
  obtain ⟨count, hcount, hrow⟩ := Res.bind_eq_ok.mp hrow
  refine ⟨t, ?_, ht⟩
  rw [readCurrent, bind_ok (get_apply _), bind_ok hg]
  dsimp only
  rw [hcount, bind_ok (lift_ok _ _)]
  by_cases hge : c.cellIndex ≥ count
  · rw [if_pos hge] at hrow ⊢
    rw [← Except.ok.inj hrow]
    rfl
  · rw [if_neg hge] at hrow ⊢
    obtain ⟨ptr, hptr, hrow⟩ := Res.bind_eq_ok.mp hrow
    obtain ⟨row, hentry, hrow⟩ := Res.bind_eq_ok.mp hrow
    rw [← Except.ok.inj hrow, hptr, bind_ok (lift_ok _ _), hf, hentry, bind_ok (lift_ok _ _)]
    rfl

/-! ## The next entry -/

theorem next_eq (h : c.endOfTable = false) : next c = (do
    let more ← readCurrent
    if more then pure true else nextLeaf) { c with cellIndex := c.cellIndex + 1 } := by
  rw [next, bind_ok (get_apply _), if_neg (by rw [h]; decide)]
  rfl

theorem next_ended (h : c.endOfTable = true) : next c = .ok false c := by
  rw [next, bind_ok (get_apply _), if_pos h]
  rfl

end

end BtreeCursor

end Sqllite
