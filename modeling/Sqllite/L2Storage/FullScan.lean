import Sqllite.Lib.Levels
import Sqllite.L2Storage.ReadCalls

/-!
# A cursor goes through every tree in order

`TableAt s n p rows` says that page `p` of pager `s` is the root of a table B-tree of
at most `n` levels, none of its leaves empty, whose cells hold `rows` from left to
right. Only what is read counts: keys in any order, cells anywhere on their page, any
number of children, leaves on different levels.

* `BtreeCursor.next_reached`: `next` goes on by one row.
* `BtreeCursor.delivers_table`: `first` and then `next` return all rows in order.
-/
namespace Sqllite
open Lib.Run Lib.Span Lib.Slotted Lib.Levels

/-! ## Trees of any content -/

/-- A cell of a leaf, inside its page: row id, length, record. -/
def RowCellAt (d : Bytes) (ptr : Nat) (row : Row) : Prop :=
  ∃ key n len m, readVarint d ptr = .ok (key, n) ∧ readVarint d (ptr + n) = .ok (len, m) ∧
    ptr + n + m + len ≤ d.length ∧ row = (asI64 key, (d.drop (ptr + n + m)).take len)

/-- A cell of an interior page, inside its page: child, key. -/
def ChildCellAt (d : Bytes) (ptr child : Nat) : Prop :=
  readU32Be d ptr = .ok child ∧ ∃ key n, readVarint d (ptr + 4) = .ok (key, n)

def LeafOf (s : Pager) (p : Nat) (rows : List Row) : Prop :=
  p ≤ s.pageCount ∧ ∃ d, s.view p = .ok d ∧
    byteAt d (pageHeaderOffset p) = .ok PAGE_TYPE_LEAF_TABLE ∧
    readU16Be d (pageHeaderOffset p + 3) = .ok rows.length ∧
    ∀ i row, rows[i]? = some row → ∃ ptr,
      readU16Be d ((leafLayout (pageHeaderOffset p)).ptr i) = .ok ptr ∧ RowCellAt d ptr row

/-- The children of the cells, then the rightmost one. -/
def BranchOf (s : Pager) (p : Nat) (kids : List Nat) : Prop :=
  p ≤ s.pageCount ∧ ∃ d front right, s.view p = .ok d ∧
    byteAt d (pageHeaderOffset p) = .ok PAGE_TYPE_INTERIOR_TABLE ∧ kids = front ++ [right] ∧
    readU16Be d (pageHeaderOffset p + 3) = .ok front.length ∧
    (∀ i child, front[i]? = some child → ∃ ptr,
      readU16Be d ((interiorLayout (pageHeaderOffset p)).ptr i) = .ok ptr ∧ ChildCellAt d ptr child) ∧
    readU32Be d (pageHeaderOffset p + 8) = .ok right

def TableAt (s : Pager) : Nat → Nat → List Row → Prop :=
  Spans (fun p rows => LeafOf s p rows ∧ rows ≠ []) (fun p kids _ => BranchOf s p kids)

section
variable {s : Pager} {n p ptr : Nat} {d : Bytes} {rows : List Row} {kids : List Nat}

/-- A cell inside its page is one that can be read. -/
theorem rowCellAt_iff {row : Row} :
    RowCellAt d ptr row ↔ BtreeCursor.readEntry tableFlags d ptr = .ok row := by
  rw [BtreeCursor.readEntry, if_neg (by decide), readCellRowid]
  constructor
  · intro h
    obtain ⟨key, n, len, m, hkey, hlen, hin, rfl⟩ := h
    rw [hkey, Res.ok_bind]
    change (readPayload d (ptr + n) >>= _) = _
    rw [readPayload, hlen, Res.ok_bind]
    change (slice d (ptr + n + m) (ptr + n + m + len) >>= _) = _
    rw [slice, if_pos ⟨Nat.le_add_right _ _, hin⟩, Res.ok_bind, Nat.add_sub_cancel_left]
    rfl
  · intro h
    obtain ⟨⟨rowid, off⟩, hrowid, h⟩ := Res.bind_eq_ok.mp h
    obtain ⟨⟨key, n⟩, hkey, hrowid⟩ := Res.bind_eq_ok.mp hrowid
    cases hrowid
    obtain ⟨record, hpayload, h⟩ := Res.bind_eq_ok.mp h
    cases h
    obtain ⟨⟨len, m⟩, hlen, hslice⟩ := Res.bind_eq_ok.mp hpayload
    dsimp only at hslice
    rw [slice] at hslice
    split at hslice
    · next hin =>
      cases hslice
      exact ⟨key, n, len, m, hkey, hlen, hin.2, by rw [Nat.add_sub_cancel_left]⟩
    · cases hslice

theorem leafOf_iff : LeafOf s p rows ↔ p ≤ s.pageCount ∧ LeafReads s p rows := by
  refine and_congr_right fun _ => exists_congr fun d => and_congr_right fun _ => and_congr_right fun _ => ?_
  constructor
  · intro h i
    obtain ⟨hcount, hrows⟩ := h
    rw [entryAt, hcount, Res.ok_bind]
    cases hrow : rows[i]? with
    | none => exact if_pos (List.getElem?_eq_none_iff.mp hrow)
    | some row =>
      obtain ⟨ptr, hptr, hcell⟩ := hrows i row hrow
      have hlt := (List.getElem?_eq_some_iff.mp hrow).1
      rw [if_neg (by omega), hptr, Res.ok_bind, rowCellAt_iff.mp hcell]
      rfl
  · intro h
    obtain ⟨count, hcount, -⟩ := Res.bind_eq_ok.mp (h 0)
    have hentry : ∀ i, entryAt tableFlags p d i = if i ≥ count then pure none else
        readU16Be d ((leafLayout (pageHeaderOffset p)).ptr i) >>= fun ptr =>
          BtreeCursor.readEntry tableFlags d ptr >>= fun entry => pure (some entry) :=
      fun i => by rw [entryAt, hcount, Res.ok_bind]
    -- the first entry that is not there comes behind the last row
    have hlen : rows.length = count := by
      have hbehind := h rows.length
      have hlast := h count
      rw [hentry, List.getElem?_eq_none (Nat.le_refl _)] at hbehind
      rw [hentry, if_pos (Nat.le_refl _)] at hlast
      have hge := List.getElem?_eq_none_iff.mp (Except.ok.inj hlast).symm
      by_cases hle : rows.length ≥ count
      · omega
      · rw [if_neg hle] at hbehind
        obtain ⟨ptr, -, hbehind⟩ := Res.bind_eq_ok.mp hbehind
        obtain ⟨entry, -, hbehind⟩ := Res.bind_eq_ok.mp hbehind
        cases hbehind
    refine ⟨by rw [hcount, hlen], fun i row hrow => ?_⟩
    have hlt := (List.getElem?_eq_some_iff.mp hrow).1
    have hi := h i
    rw [hentry, hrow, if_neg (by omega)] at hi
    obtain ⟨ptr, hptr, hi⟩ := Res.bind_eq_ok.mp hi
    obtain ⟨entry, hread, hi⟩ := Res.bind_eq_ok.mp hi
    cases hi
    exact ⟨ptr, hptr, rowCellAt_iff.mpr hread⟩

theorem BranchOf.reads (h : BranchOf s p kids) : BranchReads s p kids := by
  obtain ⟨-, d, front, right, hd, htype, rfl, hcount, hfront, hright⟩ := h
  refine ⟨d, hd, htype, fun i => ?_⟩
  rw [siblingAt, hcount, Res.ok_bind, childPageAtSlot, hcount, Res.ok_bind]
  rcases Nat.lt_trichotomy i front.length with hlt | rfl | hgt
  · have hchild := List.getElem?_eq_getElem hlt
    obtain ⟨ptr, hptr, hcell, key, n, hkey⟩ := hfront i _ hchild
    rw [if_pos (by omega), if_pos hlt, hptr, Res.ok_bind, childOfCell, htype, Res.ok_bind,
      if_pos rfl, readInteriorTableCell, hcell, Res.ok_bind, hkey, List.getElem?_append_left hlt,
      hchild]
    rfl
  · rw [if_pos (Nat.le_refl _), if_neg (Nat.lt_irrefl _), if_pos rfl, hright,
      List.getElem?_concat_length]
    rfl
  · rw [if_neg (by omega), List.getElem?_eq_none (by simp; omega)]
    rfl

/-- The trees that inserts make are among them, as long as no leaf is empty. -/
theorem TreeAt.table : ∀ {n p : Nat} {leaves : List Leaf}, TreeAt s n p leaves →
    (∀ l ∈ leaves, l.cells ≠ []) → TableAt s n p (leaves.flatMap (·.rows))
  | 0, _, _, h, _ => h.elim
  | n + 1, _, _, .inl ⟨l, rfl, hl, heq⟩, hne => by
    rw [heq, List.flatMap_singleton]
    refine .inl ⟨leafOf_iff.mpr ⟨hl.1, hl.reads⟩, fun hnil => ?_⟩
    exact hne l (by rw [heq]; exact List.mem_singleton_self l) (List.map_eq_nil_iff.mp hnil)
  | n + 1, p, _, .inr ⟨cells, right, parts, ⟨hp, d, hd, _, hpage⟩, h2, _, heq⟩, hne => by
    refine .inr ⟨children cells right, parts.map (List.flatMap (·.rows)),
      ⟨hp, d, cells.map (·.child), right, hd, hpage.byteAt, rfl, ?_, fun i child hchild => ?_,
        hpage.readRight⟩, ?_, ?_⟩
    · rw [hpage.count, List.length_map]
    · rw [List.getElem?_map, Option.map_eq_some_iff] at hchild
      obtain ⟨c, hc, rfl⟩ := hchild
      have hcell := hpage.readCell (List.mem_of_getElem? hc)
      obtain ⟨child, hread, hcell⟩ := Res.bind_eq_ok.mp hcell
      obtain ⟨⟨key, m⟩, hkey, hcell⟩ := Res.bind_eq_ok.mp hcell
      obtain ⟨rfl, -⟩ := Prod.mk.inj (Except.ok.inj hcell)
      exact ⟨c.ptr, hpage.ptr hc, hread, key, m, hkey⟩
    · rw [List.forall₂_map_right_iff]
      refine List.forall₂_iff_get.mpr ⟨h2.length_eq, fun i hi hi' => ?_⟩
      refine TreeAt.table (List.forall₂_iff_get.mp h2 |>.2 i hi hi') fun l hl => hne l ?_
      rw [heq]
      exact List.mem_flatten.mpr ⟨_, List.get_mem _ _, hl⟩
    · rw [heq, List.flatMap_def, List.map_flatten, List.flatten_flatten, List.map_map]
      rfl

/-- The fuel of a descent is enough for every tree. -/
theorem TableAt.height (h : TableAt s n p rows) : TableAt s (Btree.fuel s) p rows := by
  refine Spans.height ⟨fun p rows kids _ hl hb => ?_, fun p kids _ kids' _ hb hb' => ?_⟩
    (fun n p rows ht => ?_) (Nat.le_of_eq (Finset.card_range (s.pageCount + 1))) h
  · exact (leafOf_iff.mp hl.1).2.not_branch hb.reads
  · exact hb.reads.unique hb'.reads
  · cases n with
    | zero => exact ht.elim
    | succ n =>
      rcases ht with ⟨hl, -⟩ | ⟨_, _, hb, -⟩
      · exact Finset.mem_range.mpr (Nat.lt_succ_of_le hl.1)
      · exact Finset.mem_range.mpr (Nat.lt_succ_of_le hb.1)

end

/-! ## The rows ahead -/

/-- The rows of the subtrees that the frames of a stack lead on to. -/
inductive Pending (s : Pager) : List CursorFrame → List Row → Prop
  | nil : Pending s [] []
  | cons {f : CursorFrame} {kids : List Nat} {n : Nat} {parts : List (List Row)}
      {stack : List CursorFrame} {rest : List Row} :
      BranchOf s f.pgno kids → List.Forall₂ (TableAt s n) (kids.drop (f.childSlot + 1)) parts →
      Pending s stack rest → Pending s (f :: stack) (parts.flatten ++ rest)

/-- The rows from the cursor's place on. -/
structure Faces (s : Pager) (c : BtreeCursor) (rows : List Row) : Prop where
  reads : s.Reads c.btree.pager
  table : c.btree.flags = tableFlags
  more : c.endOfTable = false
  leaf : ∃ lr rest, LeafReads s c.leafPgno lr ∧ c.cellIndex < lr.length ∧
    Pending s c.stack rest ∧ rows = lr.drop c.cellIndex ++ rest

/-- The cursor has read the first of these rows, or is at the end. -/
def Reached (s : Pager) (c : BtreeCursor) : List Row → Prop
  | [] => c.endOfTable = true
  | r :: rows => Faces s c (r :: rows) ∧ c.currentKey = some r.1 ∧ c.currentRecord = some r.2

namespace BtreeCursor

section
variable {s : Pager} {c : BtreeCursor} {rows : List Row}

theorem descendLeftmostFrom_pending (hw : s.WalReady) : ∀ {n p : Nat} {rows rest : List Row},
    TableAt s n p rows → ∀ {c : BtreeCursor}, s.Reads c.btree.pager → Pending s c.stack rest →
    ∃ leaf lr more stack t, rows = lr ++ more ∧ lr ≠ [] ∧ LeafReads s leaf lr ∧
      descendLeftmostFrom n p c = .ok leaf (c.moved stack t) ∧ s.Reads t ∧
      Pending s stack (more ++ rest)
  | 0, _, _, _, h, _, _, _ => h.elim
  | n + 1, p, rows, rest, .inl ⟨hl, hne⟩, c, hr, hp => by
    obtain ⟨t, hrun, ht⟩ := descendLeftmostFrom_leaf hw hr (leafOf_iff.mp hl).2 n
    exact ⟨p, rows, [], c.stack, t, (List.append_nil _).symm, hne, (leafOf_iff.mp hl).2, hrun, ht, hp⟩
  | n + 1, p, _, rest, .inr ⟨_, _, hb, .nil, _⟩, c, hr, hp => by
    obtain ⟨-, d, front, right, -, -, hkids, -⟩ := hb
    exact absurd hkids.symm (List.append_ne_nil_of_right_ne_nil _ (List.cons_ne_nil _ _))
  | n + 1, p, _, rest, .inr ⟨child :: kids, part :: parts, hb, .cons hfirst hrest, heq⟩, c, hr,
      hp => by
    obtain ⟨t, hrun, ht⟩ := descendLeftmostFrom_branch hw hr hb.reads
      (show (child :: kids)[0]? = some child from rfl) n
    obtain ⟨leaf, lr, more, stack, t', rfl, hne, hl, hrun', ht', hp'⟩ :=
      descendLeftmostFrom_pending hw hfirst
        (c := c.moved ({ pgno := p, childSlot := 0 } :: c.stack) t) ht (.cons hb hrest hp)
    refine ⟨leaf, lr, more ++ parts.flatten, stack, t', ?_, hne, hl, hrun.trans hrun', ht',
      by rwa [List.append_assoc]⟩
    rw [heq, List.flatten_cons, List.append_assoc]

/-- The stack is popped down to the next leaf, if one is ahead. -/
theorem popToNextLeaf_pending (hw : s.WalReady) {stack : List CursorFrame}
    (hp : Pending s stack rows) : ∀ {c : BtreeCursor}, s.Reads c.btree.pager →
    (rows = [] ∧ ∃ t, popToNextLeaf stack c = .ok none (c.moved [] t)) ∨
    ∃ leaf lr rest stack' t, rows = lr ++ rest ∧ lr ≠ [] ∧ LeafReads s leaf lr ∧
      popToNextLeaf stack c = .ok (some leaf) (c.moved stack' t) ∧ s.Reads t ∧
      Pending s stack' rest := by
  induction hp with
  | nil =>
    intro c hr
    exact .inl ⟨rfl, c.btree.pager, rfl⟩
  | @cons f kids n parts stack rest hb htrees hp ih =>
    intro c hr
    cases hkids : kids.drop (f.childSlot + 1) with
    | nil =>
      obtain ⟨t, hrun, ht⟩ := popToNextLeaf_done stack hw hr hb.reads
        (List.getElem?_eq_none (List.drop_eq_nil_iff.mp hkids))
      rw [hkids] at htrees
      cases htrees
      rw [hrun]
      exact ih (c := c.moved stack t) ht
    | cons child kids' =>
      have hslot : kids[f.childSlot + 1]? = some child := by
        rw [← List.head?_drop, hkids]; rfl
      obtain ⟨t, hrun, ht⟩ := popToNextLeaf_turn stack hw hr hb.reads hslot
      rw [hkids] at htrees
      cases htrees with
      | @cons _ part _ parts hfirst hrest =>
        have hp' : Pending s ({ pgno := f.pgno, childSlot := f.childSlot + 1 } :: stack)
            (parts.flatten ++ rest) := by
          refine .cons hb (n := n) ?_ hp
          rw [← List.tail_drop, hkids]
          exact hrest
        obtain ⟨leaf, lr, more, stack', t', rfl, hne, hl, hrun', ht', hst⟩ :=
          descendLeftmostFrom_pending hw (TableAt.height hfirst)
            (c := c.moved ({ pgno := f.pgno, childSlot := f.childSlot + 1 } :: stack) t) ht hp'
        refine .inr ⟨leaf, lr, more ++ (parts.flatten ++ rest), stack', t', ?_, hne, hl, ?_, ht', hst⟩
        · rw [List.flatten_cons, List.append_assoc, List.append_assoc]
        · rw [hrun]
          exact bind_ok hrun' _

/-! ## Steps -/

theorem readCurrent_reached (hw : s.WalReady) (h : Faces s c rows) :
    ∃ c', readCurrent c = .ok true c' ∧ Reached s c' rows := by
  obtain ⟨hr, hf, hmore, lr, rest, hl, hi, hp, rfl⟩ := h
  obtain ⟨t, hrun, ht⟩ := readCurrent_reads hw hr hf hl
  rw [List.getElem?_eq_getElem hi] at hrun
  refine ⟨_, hrun, ?_⟩
  rw [List.drop_eq_getElem_cons hi, List.cons_append]
  refine ⟨⟨ht, hf, hmore, lr, rest, hl, hi, hp, ?_⟩, rfl, rfl⟩
  exact (congrArg (· ++ rest) (List.drop_eq_getElem_cons hi)).symm

/-- Behind the last row of a leaf. -/
theorem nextLeaf_reached (hw : s.WalReady) (hr : s.Reads c.btree.pager)
    (hf : c.btree.flags = tableFlags) (hmore : c.endOfTable = false) (hp : Pending s c.stack rows) :
    ∃ c', nextLeaf c = .ok (!rows.isEmpty) c' ∧ Reached s c' rows := by
  rcases popToNextLeaf_pending hw hp hr with
    ⟨rfl, t, hpop⟩ | ⟨leaf, lr, rest, stack, t, rfl, hne, hl, hpop, ht, hp'⟩
  · have hadv : advanceToNextLeaf c = .ok none (c.moved [] t) := by
      rw [advanceToNextLeaf, bind_ok (get_apply _)]
      exact hpop
    rw [nextLeaf, bind_ok hadv]
    exact ⟨_, rfl, rfl⟩
  · have hadv : advanceToNextLeaf c = .ok (some leaf) (c.moved stack t) := by
      rw [advanceToNextLeaf, bind_ok (get_apply _)]
      exact hpop
    have hfaces : Faces s { c.moved stack t with leafPgno := leaf, cellIndex := 0 } (lr ++ rest) :=
      ⟨ht, hf, hmore, lr, rest, hl, List.length_pos_iff.mpr hne, hp', rfl⟩
    obtain ⟨c', hrun, hreached⟩ := readCurrent_reached hw hfaces
    have hsome : (!(lr ++ rest).isEmpty) = true := by simp [hne]
    rw [nextLeaf, bind_ok hadv, hsome]
    exact ⟨c', (bind_ok (modify_apply _ _) _).trans hrun, hreached⟩

/-- `next` goes on by one row. -/
theorem next_reached (hw : s.WalReady) {r : Row} (h : Faces s c (r :: rows)) :
    ∃ c', next c = .ok (!rows.isEmpty) c' ∧ Reached s c' rows := by
  obtain ⟨hr, hf, hmore, lr, rest, hl, hi, hp, hrows⟩ := h
  rw [List.drop_eq_getElem_cons hi, List.cons_append] at hrows
  obtain rfl := (List.cons.inj hrows).2
  rw [next_eq hmore]
  rcases Nat.lt_or_ge (c.cellIndex + 1) lr.length with hlt | hge
  · have hfaces : Faces s { c with cellIndex := c.cellIndex + 1 }
        (lr.drop (c.cellIndex + 1) ++ rest) := ⟨hr, hf, hmore, lr, rest, hl, hlt, hp, rfl⟩
    obtain ⟨c', hrun, hreached⟩ := readCurrent_reached hw hfaces
    have hsome : (!(lr.drop (c.cellIndex + 1) ++ rest).isEmpty) = true := by
      rw [List.drop_eq_getElem_cons hlt]
      rfl
    rw [bind_ok hrun, hsome]
    exact ⟨c', rfl, hreached⟩
  · obtain ⟨t, hrun, ht⟩ := readCurrent_reads hw
      (c := { c with cellIndex := c.cellIndex + 1 }) hr hf hl
    rw [List.getElem?_eq_none hge] at hrun
    rw [List.drop_eq_nil_of_le hge, List.nil_append, bind_ok hrun]
    exact nextLeaf_reached hw (c := moved { c with cellIndex := c.cellIndex + 1 } c.stack t) ht hf
      hmore hp

theorem first_reached (hw : s.WalReady) (hr : s.Reads c.btree.pager)
    (hf : c.btree.flags = tableFlags) {n : Nat} (h : TableAt s n c.btree.rootPage rows) :
    ∃ c', first c = .ok (!rows.isEmpty) c' ∧ Reached s c' rows := by
  have hfuel : Btree.fuel c.btree.pager = Btree.fuel s := by
    rw [Btree.fuel, hr.pageCount, Btree.fuel]
  obtain ⟨leaf, lr, more, stack, t, rfl, hne, hl, hrun, ht, hp⟩ := descendLeftmostFrom_pending hw
    h.height (c := { c with stack := [] }) hr .nil
  rw [List.append_nil] at hp
  have hfaces : Faces s { c.moved stack t with leafPgno := leaf, cellIndex := 0, endOfTable := false }
      (lr ++ more) := ⟨ht, hf, rfl, lr, more, hl, List.length_pos_iff.mpr hne, hp, rfl⟩
  obtain ⟨c', hrun', hreached⟩ := readCurrent_reached hw hfaces
  have hsome : (!(lr ++ more).isEmpty) = true := by simp [hne]
  refine ⟨c', ?_, hreached⟩
  rw [first, bind_ok (modify_apply _ _), bind_ok (get_apply _), hsome]
  change (descendLeftmostFrom (Btree.fuel c.btree.pager) c.btree.rootPage >>= _) _ = _
  rw [hfuel, bind_ok hrun, bind_ok (modify_apply _ _)]
  exact hrun'

/-! ## Runs -/

theorem yields_reached (hw : s.WalReady) : ∀ {rows : List Row} {m : CursorM Bool}
    {c c1 : BtreeCursor}, m c = .ok (!rows.isEmpty) c1 → Reached s c1 rows →
    ∃ c', Yields m c rows c' ∧ c'.endOfTable = true := by
  intro rows
  induction rows with
  | nil =>
    intro m c c1 hrun hreached
    exact ⟨c1, hrun, hreached⟩
  | cons r rows ih =>
    intro m c c1 hrun hreached
    obtain ⟨hfaces, hkey, hrecord⟩ := hreached
    obtain ⟨c2, hnext, hreached'⟩ := next_reached hw hfaces
    obtain ⟨c', hy, hend⟩ := ih hnext hreached'
    exact ⟨c', ⟨c1, hrun, hkey, hrecord, hy⟩, hend⟩

/-- `first` and then `next` return the rows of all leaves in order, and behind the last
one false, however often. -/
theorem delivers_table (c : BtreeCursor) (hw : c.btree.pager.WalReady)
    (hf : c.btree.flags = tableFlags) {n : Nat} {rows : List Row}
    (h : TableAt c.btree.pager n c.btree.rootPage rows) :
    ∃ c', Yields first c rows c' ∧ c'.isEof = true ∧ next c' = .ok false c' := by
  obtain ⟨c1, hrun, hreached⟩ := first_reached hw (Pager.Reads.refl _) hf h
  obtain ⟨c', hy, hend⟩ := yields_reached hw hrun hreached
  exact ⟨c', hy, hend, next_ended hend⟩

end

/-! ## A tree whose keys are in no order -/

/-- A leaf of one row, its record a single byte. -/
def leafBytes (key : UInt8) : Bytes :=
  pageOfBytes [(0, 13), (4, 1), (8, 1), (9, 244), (500, key), (501, 1), (502, 7)]

/-- Page 3 is the child of the only cell, page 4 the rightmost one. -/
def rootBytes : Bytes :=
  pageOfBytes [(0, 5), (4, 1), (11, 4), (12, 1), (13, 244), (503, 3), (504, 2)]

def twoLeaves : Btree where
  pager := { (onePage []).pager with
    pageCount := 4
    cache := ((AList.singleton 4 { data := leafBytes 5, dirty := false }).insert 3
      { data := leafBytes 9, dirty := false }).insert 2 { data := rootBytes, dirty := false } }
  rootPage := 2
  flags := tableFlags

theorem leafBytes_leaf {p : Nat} {key : UInt8} (hkey : key ∈ [9, 5]) (hp : p ≤ 4)
    (hh : pageHeaderOffset p = 0) (hv : twoLeaves.pager.view p = .ok (leafBytes key)) :
    LeafOf twoLeaves.pager p [(asI64 key.toNat, [7])] := by
  have hbytes : ∀ key ∈ ([9, 5] : List UInt8), byteAt (leafBytes key) 0 = .ok PAGE_TYPE_LEAF_TABLE ∧
      readU16Be (leafBytes key) 3 = .ok 1 ∧ readU16Be (leafBytes key) 8 = .ok 500 ∧
      readVarint (leafBytes key) 500 = .ok (key.toNat, 1) ∧
      readVarint (leafBytes key) 501 = .ok (1, 1) ∧
      ((leafBytes key).drop 502).take 1 = [7] := by decide +kernel
  obtain ⟨htype, hcount, hptr, hrowid, hlen, hrecord⟩ := hbytes key hkey
  refine ⟨hp, leafBytes key, hv, by rw [hh]; exact htype, by rw [hh]; exact hcount,
    fun i row hrow => ?_⟩
  obtain ⟨hi, rfl⟩ := List.getElem?_eq_some_iff.mp hrow
  obtain rfl : i = 0 := by simpa using hi
  have hin : 503 ≤ (leafBytes key).length := by
    rw [leafBytes, pageOfBytes_length]
    decide
  rw [hh]
  exact ⟨500, hptr, _, _, _, _, hrowid, hlen, hin, by rw [hrecord]; rfl⟩

theorem twoLeaves_table : TableAt twoLeaves.pager 2 2 [(9, [7]), (5, [7])] := by
  have hroot : twoLeaves.pager.view 2 = .ok rootBytes :=
    Pager.view_cached (f := { data := rootBytes, dirty := false }) (AList.lookup_insert _)
  have h3 : twoLeaves.pager.view 3 = .ok (leafBytes 9) :=
    Pager.view_cached (f := { data := leafBytes 9, dirty := false })
      ((AList.lookup_insert_ne (by decide)).trans (AList.lookup_insert _))
  have h4 : twoLeaves.pager.view 4 = .ok (leafBytes 5) :=
    Pager.view_cached (f := { data := leafBytes 5, dirty := false })
      ((AList.lookup_insert_ne (by decide)).trans ((AList.lookup_insert_ne (by decide)).trans
        (List.dlookup_cons_eq _ _ _)))
  have hbranch : BranchOf twoLeaves.pager 2 [3, 4] := by
    refine ⟨by decide, rootBytes, [3], 4, hroot, by decide +kernel, rfl, by decide +kernel,
      fun i child hchild => ?_, by decide +kernel⟩
    obtain ⟨hi, rfl⟩ := List.getElem?_eq_some_iff.mp hchild
    obtain rfl : i = 0 := by simpa using hi
    have hcell : readU32Be rootBytes 500 = .ok 3 := by decide +kernel
    exact ⟨500, by decide +kernel, hcell, 2, 1, by decide +kernel⟩
  refine .inr ⟨[3, 4], [[(9, [7])], [(5, [7])]], hbranch, .cons (.inl ⟨?_, by decide⟩)
    (.cons (.inl ⟨?_, by decide⟩) .nil), rfl⟩
  · exact leafBytes_leaf (by decide) (by decide) rfl h3
  · exact leafBytes_leaf (by decide) (by decide) rfl h4

theorem delivers_table_two : ∃ c', Yields first twoLeaves.cursor [(9, [7]), (5, [7])] c' ∧
    c'.isEof = true ∧ next c' = .ok false c' :=
  delivers_table twoLeaves.cursor (fun h => by cases h) rfl twoLeaves_table

end BtreeCursor

end Sqllite
