import Sqllite.L2Storage.CursorSteps
import Sqllite.L2Storage.Tree

/-!
# What a cursor does on a tree

A cursor on a table stands on a cell of a leaf with other leaves ahead; the
frames of its stack are one way to write down the leaves ahead. `Pos` is this
position, and each cursor operation is a step of it.

* `BtreeCursor.first_spec`, `BtreeCursor.next_spec`: the steps.
* `BtreeCursor.scan_spec`: a scan goes through the leaves up to the first empty one.
-/
namespace Sqllite
open Lib.Run Lib.Span Lib.Slotted

/-! ## Pages of a tree as the cursor reads them -/

theorem LeafAt.reads {s : Pager} {l : Leaf} (h : LeafAt s l) : LeafReads s l.pgno l.rows := by
  obtain ⟨-, d, hd, -, hp⟩ := h
  refine ⟨d, hd, hp.byteAt, fun i => ?_⟩
  rw [entryAt, hp.count, Res.ok_bind]
  rcases Nat.lt_or_ge i l.cells.length with hlt | hge
  · have hc := List.getElem?_eq_getElem hlt
    obtain ⟨h1, h2⟩ := hp.readCell (List.getElem_mem hlt)
    rw [if_neg (by omega), hp.ptr hc, Res.ok_bind, BtreeCursor.readEntry, if_neg (by decide), h1,
      Res.ok_bind, Leaf.rows, List.getElem?_map, hc]
    simp only [h2, Res.ok_bind]
    rfl
  · rw [if_pos hge, Leaf.rows, List.getElem?_map, List.getElem?_eq_none hge]
    rfl

theorem InteriorAt.reads {s : Pager} {p right : Nat} {cells : List InteriorCell}
    (h : InteriorAt s p cells right) : BranchReads s p (children cells right) := by
  obtain ⟨-, d, hd, -, hp⟩ := h
  refine ⟨d, hd, hp.byteAt, fun i => ?_⟩
  rw [siblingAt, hp.count, Res.ok_bind]
  cases hc : (children cells right)[i]? with
  | none =>
    have hge := List.getElem?_eq_none_iff.mp hc
    rw [children_length] at hge
    exact if_neg (by omega)
  | some child =>
    have hlt := (List.getElem?_eq_some_iff.mp hc).1
    rw [children_length] at hlt
    rw [if_pos (by omega), hp.childPageAtSlot hc]
    rfl

/-! ## Positions -/

/-- A place in a tree: a cell of a leaf, and the leaves behind it. -/
structure Pos where
  leaf : Leaf
  index : Nat
  rest : List Leaf

def Pos.cell (pos : Pos) : Option LeafCell := pos.leaf.cells[pos.index]?

/-- The next place: in the leaf, else the start of the next leaf, empty or not. -/
def Pos.next (pos : Pos) : Option Pos :=
  if pos.index + 1 < pos.leaf.cells.length then some { pos with index := pos.index + 1 }
  else match pos.rest with
    | [] => none
    | l :: rest => some { leaf := l, index := 0, rest := rest }

/-- The rows of the leaves up to the first empty one. -/
def scanned : List Leaf → List Row
  | [] => []
  | l :: rest => if l.cells = [] then [] else l.rows ++ scanned rest

/-- The leaves behind the first empty one. -/
def unscanned : List Leaf → List Leaf
  | [] => []
  | l :: rest => if l.cells = [] then rest else unscanned rest

/-! ## Cursors at a position -/

/-- The frames of a stack stand for the leaves still to come. -/
inductive Ahead (s : Pager) : List CursorFrame → List Leaf → Prop
  | nil : Ahead s [] []
  | cons {f : CursorFrame} {cells : List InteriorCell} {right n : Nat}
      {parts : List (List Leaf)} {stack : List CursorFrame} {rest : List Leaf} :
      InteriorAt s f.pgno cells right →
      List.Forall₂ (TreeAt s n) ((children cells right).drop (f.childSlot + 1)) parts →
      Ahead s stack rest → Ahead s (f :: stack) (parts.flatten ++ rest)

structure Stands (s : Pager) (c : BtreeCursor) (pos : Pos) : Prop where
  reads : s.Reads c.btree.pager
  table : c.btree.flags = tableFlags
  leaf : LeafAt s pos.leaf
  pgno : c.leafPgno = pos.leaf.pgno
  index : c.cellIndex = pos.index
  ahead : Ahead s c.stack pos.rest
  more : c.endOfTable = false

/-- The cursor's current entry is the cell it stands on. -/
def Shows (c : BtreeCursor) (pos : Pos) : Prop :=
  ∀ cell, pos.cell = some cell → c.currentKey = some cell.key ∧ c.currentRecord = some cell.record

namespace BtreeCursor

section
variable {s : Pager} {c : BtreeCursor}

theorem descendLeftmostFrom_spec (hs : s.Ready) : ∀ {n p : Nat} {leaves : List Leaf},
    TreeAt s n p leaves → ∀ {c : BtreeCursor} {rest : List Leaf}, s.Reads c.btree.pager →
    Ahead s c.stack rest → ∃ l ls stack t, leaves = l :: ls ∧
      descendLeftmostFrom n p c = .ok l.pgno (c.moved stack t) ∧ s.Reads t ∧
      Ahead s stack (ls ++ rest)
  | 0, _, _, h, _, _, _, _ => h.elim
  | n + 1, _, _, .inl ⟨l, rfl, hl, heq⟩, c, rest, hr, ha => by
    obtain ⟨t, hrun, ht⟩ := descendLeftmostFrom_leaf hs.wal hr hl.reads n
    exact ⟨l, [], c.stack, t, heq, hrun, ht, ha⟩
  | n + 1, p, _, .inr ⟨cells, right, parts, hint, h2, _, heq⟩, c, rest, hr, ha => by
    obtain ⟨child, kids, hkids⟩ := List.exists_cons_of_length_eq_add_one
      (children_length cells right)
    have hchild : (children cells right)[0]? = some child := by rw [hkids]; rfl
    obtain ⟨t, hrun, ht⟩ := descendLeftmostFrom_branch hs.wal hr hint.reads hchild n
    rw [hkids] at h2
    cases h2 with
    | @cons _ part _ parts hfirst hrest =>
      have ha' : Ahead s ({ pgno := p, childSlot := 0 } :: c.stack) (parts.flatten ++ rest) :=
        .cons hint (by rw [hkids]; exact hrest) ha
      obtain ⟨l, ls, stack, t', hpart, hrun', ht', hst⟩ := descendLeftmostFrom_spec hs hfirst
        (c := c.moved ({ pgno := p, childSlot := 0 } :: c.stack) t) ht ha'
      refine ⟨l, ls ++ parts.flatten, stack, t', ?_, hrun.trans hrun', ht',
        by rwa [List.append_assoc]⟩
      rw [heq, List.flatten_cons, hpart]
      rfl

/-- The stack is popped down to a frame with another child. -/
theorem popToNextLeaf_spec (hs : s.Ready) {stack : List CursorFrame} {leaves : List Leaf}
    (ha : Ahead s stack leaves) : ∀ {c : BtreeCursor}, s.Reads c.btree.pager →
    ∃ stack' t, popToNextLeaf stack c = .ok (leaves.head?.map (·.pgno)) (c.moved stack' t) ∧
      s.Reads t ∧ (∀ l ∈ leaves.head?, LeafAt s l) ∧ Ahead s stack' leaves.tail := by
  induction ha with
  | nil =>
    intro c hr
    exact ⟨[], c.btree.pager, rfl, hr, fun l hl => (by cases hl), .nil⟩
  | @cons f cells right n parts stack rest hint htrees ha ih =>
    intro c hr
    cases hkids : (children cells right).drop (f.childSlot + 1) with
    | nil =>
      obtain ⟨t, hrun, ht⟩ := popToNextLeaf_done stack hs.wal hr hint.reads
        (List.getElem?_eq_none (List.drop_eq_nil_iff.mp hkids))
      rw [hkids] at htrees
      cases htrees
      obtain ⟨stack', t', hrun', hrest⟩ := ih (c := c.moved stack t) ht
      exact ⟨stack', t', hrun.trans hrun', hrest⟩
    | cons child kids =>
      have hslot : (children cells right)[f.childSlot + 1]? = some child := by
        rw [← List.head?_drop, hkids]; rfl
      obtain ⟨t, hrun, ht⟩ := popToNextLeaf_turn stack hs.wal hr hint.reads hslot
      rw [hkids] at htrees
      cases htrees with
      | @cons _ part _ parts hfirst hrest =>
        have ha' : Ahead s ({ pgno := f.pgno, childSlot := f.childSlot + 1 } :: stack)
            (parts.flatten ++ rest) := by
          refine .cons hint (n := n) ?_ ha
          rw [← List.tail_drop, hkids]
          exact hrest
        obtain ⟨l, ls, stack', t', hpart, hrun', ht', hst⟩ := descendLeftmostFrom_spec hs
          hfirst.height (c := c.moved ({ pgno := f.pgno, childSlot := f.childSlot + 1 } :: stack) t)
          ht ha'
        have hleaves : (part :: parts).flatten ++ rest = l :: (ls ++ parts.flatten ++ rest) := by
          rw [List.flatten_cons, hpart, List.cons_append, List.cons_append]
        simp only [hleaves, List.head?_cons, Option.map_some, List.tail_cons, Option.mem_some_iff,
          forall_eq']
        refine ⟨stack', t', ?_, ht', ?_, by rwa [List.append_assoc]⟩
        · rw [hrun]
          exact bind_ok hrun' _
        · exact hfirst.leafAt l (by rw [hpart]; exact List.mem_cons_self)

/-! ## Steps -/

/-- Where a cursor is after a step: at a position, its entry read, or at the end. -/
def Placed (s : Pager) (c : BtreeCursor) : Option Pos → Prop
  | some pos => Stands s c pos ∧ Shows c pos
  | none => s.Reads c.btree.pager ∧ c.endOfTable = true

theorem readCurrent_placed (hs : s.Ready) (pos : Pos) (h : Stands s c pos) :
    ∃ c', readCurrent c = .ok pos.cell.isSome c' ∧ Placed s c' (some pos) ∧
      c'.btree.rootPage = c.btree.rootPage := by
  have hleaf : LeafReads s c.leafPgno pos.leaf.rows := h.pgno ▸ h.leaf.reads
  obtain ⟨t, hrun, ht⟩ := readCurrent_reads hs.wal h.reads h.table hleaf
  have hrow : pos.leaf.rows[c.cellIndex]? = pos.cell.map (·.val) := by
    rw [h.index, Leaf.rows, List.getElem?_map, Pos.cell]
  rw [hrow, Option.isSome_map] at hrun
  refine ⟨_, hrun, ?_⟩
  cases hc : pos.cell with
  | none =>
    exact ⟨⟨⟨ht, h.table, h.leaf, h.pgno, h.index, h.ahead, h.more⟩,
      fun _ hx => by rw [hc] at hx; cases hx⟩, rfl⟩
  | some cell =>
    refine ⟨⟨⟨ht, h.table, h.leaf, h.pgno, h.index, h.ahead, h.more⟩, fun x hx => ?_⟩, rfl⟩
    rw [hc] at hx
    cases hx
    exact ⟨rfl, rfl⟩

/-- `first` goes to the start of the first leaf, empty or not. -/
theorem first_spec (hs : s.Ready) {n : Nat} {leaves : List Leaf} (hr : s.Reads c.btree.pager)
    (hf : c.btree.flags = tableFlags) (h : TreeAt s n c.btree.rootPage leaves) :
    ∃ l rest c', leaves = l :: rest ∧ first c = .ok (l.cells[0]?).isSome c' ∧
      Placed s c' (some ⟨l, 0, rest⟩) ∧ c'.btree.rootPage = c.btree.rootPage := by
  have hfuel : Btree.fuel c.btree.pager = Btree.fuel s := by
    rw [Btree.fuel, hr.pageCount, Btree.fuel]
  obtain ⟨l, ls, stack, t, hleaves, hrun, ht, hst⟩ := descendLeftmostFrom_spec hs h.height
    (c := { c with stack := [] }) hr .nil
  rw [List.append_nil] at hst
  obtain ⟨c', hrun', hplaced, hroot⟩ := readCurrent_placed hs ⟨l, 0, ls⟩
    (c := { c.moved stack t with leafPgno := l.pgno, cellIndex := 0, endOfTable := false })
    ⟨ht, hf, h.leafAt l (by rw [hleaves]; exact List.mem_cons_self), rfl, rfl, hst, rfl⟩
  refine ⟨l, ls, c', hleaves, ?_, hplaced, hroot⟩
  rw [first, bind_ok (modify_apply _ _), bind_ok (get_apply _)]
  change (descendLeftmostFrom (Btree.fuel c.btree.pager) c.btree.rootPage >>= _) _ = _
  rw [hfuel, bind_ok hrun, bind_ok (modify_apply _ _)]
  exact hrun'

theorem nextLeaf_spec (hs : s.Ready) {leaves : List Leaf} (hr : s.Reads c.btree.pager)
    (hf : c.btree.flags = tableFlags) (ha : Ahead s c.stack leaves) (he : c.endOfTable = false) :
    ∃ c', nextLeaf c = .ok (leaves.head?.bind (·.cells[0]?)).isSome c' ∧
      Placed s c' (leaves.head?.map fun l => ⟨l, 0, leaves.tail⟩) ∧
      c'.btree.rootPage = c.btree.rootPage := by
  obtain ⟨stack, t, hpop, ht, hl, hst⟩ := popToNextLeaf_spec hs ha hr
  have hadv : advanceToNextLeaf c = .ok (leaves.head?.map (·.pgno)) (c.moved stack t) := by
    rw [advanceToNextLeaf, bind_ok (get_apply _)]
    exact hpop
  rw [nextLeaf, bind_ok hadv]
  cases leaves with
  | nil => exact ⟨_, rfl, ⟨ht, rfl⟩, rfl⟩
  | cons l rest =>
    obtain ⟨c', hrun, hplaced, hroot⟩ := readCurrent_placed hs ⟨l, 0, rest⟩
      (c := { c.moved stack t with leafPgno := l.pgno, cellIndex := 0 })
      ⟨ht, hf, hl l rfl, rfl, rfl, hst, he⟩
    exact ⟨c', (bind_ok (modify_apply _ _) _).trans hrun, hplaced, hroot⟩

/-- `next` goes to the next position. -/
theorem next_spec (hs : s.Ready) {pos : Pos} (h : Stands s c pos) :
    ∃ c', next c = .ok (pos.next.bind Pos.cell).isSome c' ∧ Placed s c' pos.next ∧
      c'.btree.rootPage = c.btree.rootPage := by
  -- the next entry of the leaf, which may not be there
  obtain ⟨c1, hrun, hplaced, hroot⟩ := readCurrent_placed hs { pos with index := pos.index + 1 }
    (c := { c with cellIndex := c.cellIndex + 1 })
    ⟨h.reads, h.table, h.leaf, h.pgno, congrArg (· + 1) h.index, h.ahead, h.more⟩
  rw [next_eq h.more, bind_ok hrun]
  rcases Nat.lt_or_ge (pos.index + 1) pos.leaf.cells.length with hlt | hge
  · have hcell : Pos.cell { pos with index := pos.index + 1 } = some pos.leaf.cells[pos.index + 1] :=
      List.getElem?_eq_getElem hlt
    have hpos : pos.next = some { pos with index := pos.index + 1 } := if_pos hlt
    rw [hpos, Option.bind_some, hcell]
    exact ⟨c1, rfl, hplaced, hroot⟩
  · have hcell : Pos.cell { pos with index := pos.index + 1 } = none := List.getElem?_eq_none hge
    rw [hcell]
    obtain ⟨c', hrun', hplaced', hroot'⟩ := nextLeaf_spec hs hplaced.1.reads hplaced.1.table
      hplaced.1.ahead hplaced.1.more
    have hpos : pos.next = pos.rest.head?.map fun l => ⟨l, 0, pos.rest.tail⟩ := by
      rw [Pos.next, if_neg (by omega)]
      cases pos.rest <;> rfl
    have hbind : pos.next.bind Pos.cell = pos.rest.head?.bind (·.cells[0]?) := by
      rw [hpos, Option.bind_map]
      rfl
    rw [hbind, hpos]
    exact ⟨c', hrun', hplaced', hroot'.trans hroot⟩

/-! ## Scans -/

/-- From `c` the call `m`, then `next`, return these rows; the call after the
last one returns false and leaves `c'`. -/
def Yields (m : CursorM Bool) (c : BtreeCursor) : List Row → BtreeCursor → Prop
  | [], c' => m c = .ok false c'
  | r :: rows, c' => ∃ c1, m c = .ok true c1 ∧ c1.currentKey = some r.1 ∧
      c1.currentRecord = some r.2 ∧ Yields next c1 rows c'

theorem Yields.unique : ∀ {rows rows' : List Row} {m : CursorM Bool} {c c1 c2 : BtreeCursor},
    Yields m c rows c1 → Yields m c rows' c2 → rows = rows' ∧ c1 = c2
  | [], [], _, _, _, _, h, g => by
    have := h.symm.trans g
    cases this
    exact ⟨rfl, rfl⟩
  | [], _ :: _, _, _, _, _, h, ⟨_, g, _⟩ => by
    have := h.symm.trans g
    cases this
  | _ :: _, [], _, _, _, _, ⟨_, h, _⟩, g => by
    have := h.symm.trans g
    cases this
  | r :: rows, r' :: rows', _, _, _, _, ⟨_, h, hk, hr, hy⟩, ⟨_, g, gk, gr, gy⟩ => by
    have := h.symm.trans g
    cases this
    obtain ⟨rfl, rfl⟩ := hy.unique gy
    obtain ⟨k, v⟩ := r
    obtain ⟨k', v'⟩ := r'
    cases hk.symm.trans gk
    cases hr.symm.trans gr
    exact ⟨rfl, rfl⟩

/-- The cursor stopped, at the end or on an empty leaf with others ahead. -/
def Stopped (s : Pager) (c : BtreeCursor) (ahead : List Leaf) : Prop :=
  c.endOfTable = true ∧ ahead = [] ∨ ∃ l, l.cells = [] ∧ Stands s c ⟨l, 0, ahead⟩

/-- The rows of a leaf from its entry `i` on, then those that `next` yields from
its last entry. -/
theorem yields_leaf (hs : s.Ready) {l : Leaf} {rest : List Leaf} {rows : List Row}
    {P : BtreeCursor → Prop}
    (hlast : ∀ c, Stands s c ⟨l, l.cells.length - 1, rest⟩ → ∃ c', Yields next c rows c' ∧ P c') :
    ∀ (k i : Nat) {m : CursorM Bool} {c c1 : BtreeCursor}, i + k + 1 = l.cells.length →
    m c = .ok true c1 → Placed s c1 (some ⟨l, i, rest⟩) →
    ∃ c', Yields m c (l.rows.drop i ++ rows) c' ∧ P c' := by
  intro k
  induction k with
  | zero =>
    intro i m c c1 hk hm hp
    have hi : i < l.cells.length := by omega
    have hir : i < l.rows.length := by rwa [Leaf.rows, List.length_map]
    have hcell : Pos.cell ⟨l, i, rest⟩ = some l.cells[i] := List.getElem?_eq_getElem hi
    obtain ⟨hst, hshows⟩ := hp
    obtain rfl : i = l.cells.length - 1 := by omega
    obtain ⟨c', hy, hP⟩ := hlast c1 hst
    refine ⟨c', ?_, hP⟩
    rw [List.drop_eq_getElem_cons hir, List.cons_append,
      List.drop_eq_nil_of_le (by rw [Leaf.rows, List.length_map]; omega), List.nil_append]
    refine ⟨c1, hm, ?_, ?_, hy⟩
    · rw [(hshows _ hcell).1]; simp [Leaf.rows, LeafCell.key]
    · rw [(hshows _ hcell).2]; simp [Leaf.rows, LeafCell.record]
  | succ k ih =>
    intro i m c c1 hk hm hp
    have hi : i < l.cells.length := by omega
    have hir : i < l.rows.length := by rwa [Leaf.rows, List.length_map]
    have hcell : Pos.cell ⟨l, i, rest⟩ = some l.cells[i] := List.getElem?_eq_getElem hi
    obtain ⟨hst, hshows⟩ := hp
    obtain ⟨c2, hrun, hp2, -⟩ := next_spec hs hst
    have hnext : Pos.next ⟨l, i, rest⟩ = some ⟨l, i + 1, rest⟩ := if_pos (by simp only; omega)
    have hi2 : i + 1 < l.cells.length := by omega
    have hcell2 : Pos.cell ⟨l, i + 1, rest⟩ = some l.cells[i + 1] := List.getElem?_eq_getElem hi2
    rw [hnext] at hp2
    rw [hnext, Option.bind_some, hcell2] at hrun
    obtain ⟨c', hy, hP⟩ := ih (i + 1) (by omega) hrun hp2
    refine ⟨c', ?_, hP⟩
    rw [List.drop_eq_getElem_cons hir, List.cons_append]
    refine ⟨c1, hm, ?_, ?_, hy⟩
    · rw [(hshows _ hcell).1]; simp [Leaf.rows, LeafCell.key]
    · rw [(hshows _ hcell).2]; simp [Leaf.rows, LeafCell.record]

/-- What a call that goes to an entry of a leaf, then `next`, yield. -/
theorem yields_from (hs : s.Ready) : ∀ (rest : List Leaf) {l : Leaf} {i : Nat} {m : CursorM Bool}
    {c c1 : BtreeCursor}, i < l.cells.length → m c = .ok true c1 →
    Placed s c1 (some ⟨l, i, rest⟩) →
    ∃ c', Yields m c (l.rows.drop i ++ scanned rest) c' ∧ Stopped s c' (unscanned rest) := by
  intro rest
  induction rest with
  | nil =>
    intro l i m c c1 hi hm hp
    refine yields_leaf hs (fun c hst => ?_) (l.cells.length - i - 1) i (by omega) hm hp
    obtain ⟨c', hrun, hplaced, -⟩ := next_spec hs hst
    have hnext : Pos.next ⟨l, l.cells.length - 1, []⟩ = none := if_neg (by simp only; omega)
    rw [hnext] at hrun hplaced
    exact ⟨c', hrun, .inl ⟨hplaced.2, rfl⟩⟩
  | cons l' rest ih =>
    intro l i m c c1 hi hm hp
    refine yields_leaf hs (fun c hst => ?_) (l.cells.length - i - 1) i (by omega) hm hp
    obtain ⟨c', hrun, hplaced, -⟩ := next_spec hs hst
    have hnext : Pos.next ⟨l, l.cells.length - 1, l' :: rest⟩ = some ⟨l', 0, rest⟩ :=
      if_neg (by simp only; omega)
    rw [hnext] at hrun hplaced
    rw [Option.bind_some, Pos.cell] at hrun
    unfold scanned unscanned
    by_cases hl : l'.cells = []
    · rw [if_pos hl, if_pos hl]
      rw [hl] at hrun
      exact ⟨c', hrun, .inr ⟨l', hl, hplaced.1⟩⟩
    · rw [if_neg hl, if_neg hl]
      have hpos := List.length_pos_iff.mpr hl
      rw [List.getElem?_eq_getElem hpos] at hrun
      exact ih hpos hrun hplaced

/-- What a call that goes to the start of a leaf, then `next`, yield. -/
theorem yields_leaves (hs : s.Ready) (rest : List Leaf) {l : Leaf} {m : CursorM Bool}
    {c c1 : BtreeCursor} (hm : m c = .ok (l.cells[0]?).isSome c1)
    (hp : Placed s c1 (some ⟨l, 0, rest⟩)) :
    ∃ c', Yields m c (scanned (l :: rest)) c' ∧ Stopped s c' (unscanned (l :: rest)) := by
  unfold scanned unscanned
  by_cases hl : l.cells = []
  · rw [if_pos hl, if_pos hl]
    rw [hl] at hm
    exact ⟨c1, hm, .inr ⟨l, hl, hp.1⟩⟩
  · rw [if_neg hl, if_neg hl]
    have hpos := List.length_pos_iff.mpr hl
    rw [List.getElem?_eq_getElem hpos] at hm
    exact yields_from hs rest hpos hm hp

/-- A scan yields the rows of the leaves up to the first empty one. -/
theorem scan_spec (hs : s.Ready) {n : Nat} {leaves : List Leaf} (hr : s.Reads c.btree.pager)
    (hf : c.btree.flags = tableFlags) (h : TreeAt s n c.btree.rootPage leaves) :
    ∃ c', Yields first c (scanned leaves) c' ∧ Stopped s c' (unscanned leaves) := by
  obtain ⟨l, rest, c1, rfl, hrun, hplaced, -⟩ := first_spec hs hr hf h
  exact yields_leaves hs rest hrun hplaced

/-- With nothing but empty leaves ahead a stopped cursor stays stopped. -/
theorem Stopped.next (hs : s.Ready) {ahead : List Leaf} (h : Stopped s c ahead)
    (he : ∀ l ∈ ahead, l.cells = []) :
    ∃ c', BtreeCursor.next c = .ok false c' ∧ Stopped s c' ahead.tail := by
  rcases h with ⟨hend, rfl⟩ | ⟨l, hl, hst⟩
  · exact ⟨c, next_ended hend, .inl ⟨hend, rfl⟩⟩
  · obtain ⟨c', hrun, hplaced, -⟩ := next_spec hs hst
    cases ahead with
    | nil =>
      have hnext : Pos.next ⟨l, 0, []⟩ = none := if_neg (by simp [hl])
      rw [hnext] at hrun hplaced
      exact ⟨c', hrun, .inl ⟨hplaced.2, rfl⟩⟩
    | cons l' rest =>
      have hnext : Pos.next ⟨l, 0, l' :: rest⟩ = some ⟨l', 0, rest⟩ := if_neg (by simp [hl])
      have hl' := he l' List.mem_cons_self
      rw [hnext] at hrun hplaced
      rw [Option.bind_some, Pos.cell, hl'] at hrun
      exact ⟨c', hrun, .inr ⟨l', hl', hplaced.1⟩⟩

end

end BtreeCursor

end Sqllite
