import Sqllite.L2Storage.Tree

/-!
# What insertion does to a page

The steps of `insert_table_row` in terms of leaves and interior pages.

* `Btree.insertLeaf_room`, `Btree.insertLeaf_split`: a leaf takes a new cell, or
  its cells are dealt out by number to the leaf and a new one.
* `Btree.promote_spec`: a new root above the halves of the old one.
-/
namespace Sqllite
open Lib Lib.Run Lib.Span Lib.Slotted

/-- Page sizes of a database file. -/
def SizeOk (s : Pager) : Prop := 512 ≤ s.pageSize ∧ s.pageSize ≤ 32768

theorem SizeOk.writes {s s' : Pager} {touched : List Nat} (h : SizeOk s)
    (hw : Pager.Writes touched s s') : SizeOk s' := by
  rw [SizeOk, hw.pageSize]
  exact h

/-- Content offsets of its pages fit their fields. -/
theorem SizeOk.start_lt {s : Pager} (h : SizeOk s) {L : Layout} {d : Bytes} {start : Nat}
    {slots : List Slot} (hp : Holds L d start slots) (hlen : d.length = s.pageSize) :
    start < 65536 := by
  have := hp.top
  have := h.2
  omega

theorem pageHeaderOffset_le (p : Nat) : pageHeaderOffset p ≤ 100 := by
  unfold pageHeaderOffset
  split
  · exact Nat.le_refl _
  · exact Nat.zero_le _

theorem pageHeaderOffset_succ {p : Nat} (h : 1 ≤ p) : pageHeaderOffset (p + 1) = 0 :=
  if_neg (by simp only [ROOT_PAGE]; omega)

namespace Btree

/-! ## New pages -/

/-- A page as `initPage` leaves it. -/
structure Blank (d : Bytes) (h size : Nat) (pageType : UInt8) : Prop where
  length : d.length = size
  type : d[h]? = some pageType
  count : At d (h + 3) (be16 0)
  content : At d (h + 5) (be16 size)

theorem initPage_spec {s : Pager} (hs : s.Ready) (hsize : SizeOk s) {p : Nat} (hp : 1 ≤ p)
    (pageType : UInt8) :
    ∃ t d, initPage p pageType s = .ok () t ∧ Pager.Writes [p] s t ∧ t.pageCount = s.pageCount ∧
      t.view p = .ok d ∧ Blank d (pageHeaderOffset p) s.pageSize pageType := by
  have hh := pageHeaderOffset_le p
  obtain ⟨h512, h32⟩ := hsize
  obtain ⟨d1, e1, a1, o1⟩ := copyInto_outside (List.replicate s.pageSize 0) (pageHeaderOffset p)
    [pageType] (by rw [List.length_replicate, List.length_singleton]; omega)
  obtain ⟨d2, e2, a2, o2⟩ := copyInto_outside d1 (pageHeaderOffset p + 5) (be16 s.pageSize)
    (by rw [o1.1, List.length_replicate, be16_length]; omega)
  have hlen : d2.length = s.pageSize := by rw [o2.1, o1.1, List.length_replicate]
  rw [List.length_singleton] at o1
  rw [be16_length] at o2
  obtain ⟨t1, hw1, hwr1, hv1, hpc1, hc1⟩ := Pager.writePage_ready hs
    { pgno := p, data := d2, dirty := true }
  obtain ⟨t2, hw2, hwr2, hpc2, hc2⟩ := Pager.writePageDirect_ready hwr1.ready hp
    (hlen.trans hwr1.pageSize.symm) (by rw [hc1]; rfl)
  refine ⟨t2, d2, ?_, hwr1.trans hwr2, by rw [hpc2, hpc1], ?_, ⟨hlen, ?_, ?_, a2⟩⟩
  · rw [initPage, bind_ok (get_apply s), e1, bind_ok (lift_ok _ _), e2, bind_ok (lift_ok _ _),
      bind_ok hw1]
    exact hw2
  · rw [Pager.view_eq, hc2, hc1]
  · rw [o2.2 _ (by omega), ← At.singleton]
    exact a1
  · have hz : At (List.replicate s.pageSize 0) (pageHeaderOffset p + 3) (be16 0) := fun i hi => by
      rw [be16_length] at hi
      rw [List.getElem?_replicate, if_pos (by omega)]
      rcases (by omega : i = 0 ∨ i = 1) with rfl | rfl <;> rfl
    exact (o2.at_iff (.inl (by rw [be16_length]))).mpr ((o1.at_iff (.inr (by omega))).mpr hz)

theorem Blank.holds {d : Bytes} {h size : Nat} {pageType : UInt8} (hd : Blank d h size pageType)
    (hh : h ≤ 100) (h512 : 512 ≤ size) (hmax : size ≤ 65536) : Holds (leafLayout h) d size [] where
  count := hd.count
  content := hd.content
  ptr := fun i p c hi => by cases hi
  cell := fun s hs => by cases hs
  low := fun s hs => by cases hs
  high := fun s hs => by cases hs
  near := fun s hs => by cases hs
  few := by decide
  apart := List.Pairwise.nil
  room := by simp only [leafLayout, List.length_nil]; omega
  top := by rw [hd.length]
  small := by rw [hd.length]; exact hmax

theorem Blank.leaf {d : Bytes} {h size : Nat} (hd : Blank d h size PAGE_TYPE_LEAF_TABLE)
    (hh : h ≤ 100) (h512 : 512 ≤ size) (h32 : size ≤ 32768) : LeafPage d h size [] where
  type := hd.type
  holds := hd.holds hh h512 (by omega)
  cell := fun c hc => by cases hc

end Btree

/-! ## Leaves -/

/-- The leaf with a new cell below the others. -/
def Leaf.insert (l : Leaf) (bytes : Bytes) (row : Row) : Leaf where
  pgno := l.pgno
  start := l.start - bytes.length
  cells := l.cells.insertIdx (insertPos l.cells row.1) ⟨l.start - bytes.length, bytes, row⟩

/-- A leaf laid out afresh. -/
def Leaf.fresh (pgno size : Nat) (cells : List LeafCell) : Leaf where
  pgno := pgno
  start := size - total (cells.map (·.bytes))
  cells := placed size cells

/-- Free space of the leaf for one more cell of this many bytes. -/
def Leaf.Room (l : Leaf) (n : Nat) : Prop :=
  pageHeaderOffset l.pgno + 8 + (l.cells.length + 1) * 2 + 1 ≤ l.start - n

/-- The leaf with its cells encoded again. -/
def Leaf.recoded (l : Leaf) : Leaf := { l with cells := l.cells.map LeafCell.recoded }

theorem Leaf.recoded_eq {l : Leaf}
    (h : ∀ c ∈ l.cells, buildTableCell c.key c.record = .ok c.bytes) : l.recoded = l := by
  have hcells : l.cells.map LeafCell.recoded = l.cells :=
    (List.map_congr_left fun c hc => LeafCell.recoded_eq (h c hc)).trans (List.map_id _)
  rw [recoded, hcells]

@[simp] theorem Leaf.recoded_length (l : Leaf) : l.recoded.cells.length = l.cells.length :=
  List.length_map _

/-- The cells of the leaf and a new one, by key. -/
def Leaf.cellsWith (l : Leaf) (bytes : Bytes) (row : Row) : List LeafCell :=
  sortCells (l.cells ++ [⟨0, bytes, row⟩])

/-- The cells that stay in the leaf when it is split. -/
def Leaf.lower (l : Leaf) (bytes : Bytes) (row : Row) : List LeafCell :=
  (l.cellsWith bytes row).take ((l.cells.length + 1) / 2)

/-- The cells that go to the new leaf. -/
def Leaf.upper (l : Leaf) (bytes : Bytes) (row : Row) : List LeafCell :=
  (l.cellsWith bytes row).drop ((l.cells.length + 1) / 2)

/-- Both halves of a split fit their pages. -/
def Leaf.HalvesFit (l : Leaf) (size : Nat) (bytes : Bytes) (row : Row) : Prop :=
  pageHeaderOffset l.pgno + 8 + leafSize (l.lower bytes row) ≤ size ∧
    8 + leafSize (l.upper bytes row) ≤ size

instance (l : Leaf) (n : Nat) : Decidable (l.Room n) := inferInstanceAs (Decidable (_ ≤ _))

instance (l : Leaf) (size : Nat) (bytes : Bytes) (row : Row) :
    Decidable (l.HalvesFit size bytes row) := inferInstanceAs (Decidable (_ ∧ _))

theorem Leaf.cellsWith_length (l : Leaf) (bytes : Bytes) (row : Row) :
    (l.cellsWith bytes row).length = l.cells.length + 1 := by
  rw [cellsWith, sortCells, List.length_insertionSort, List.length_append, List.length_singleton]

theorem Leaf.mem_cellsWith {l : Leaf} {bytes : Bytes} {row : Row} {c : LeafCell} :
    c ∈ l.cellsWith bytes row ↔ c ∈ l.cells ∨ c = ⟨0, bytes, row⟩ := by
  rw [cellsWith, sortCells, List.mem_insertionSort, List.mem_append, List.mem_singleton]

theorem Leaf.lower_append_upper (l : Leaf) (bytes : Bytes) (row : Row) :
    l.lower bytes row ++ l.upper bytes row = l.cellsWith bytes row := List.take_append_drop _ _

namespace Btree

section
variable {b : Btree} {l : Leaf} {bytes record : Bytes} {key : Int}

theorem insertIntoLeafTable_eq (bytes : Bytes) (hs : b.pager.Ready) {d : Bytes} (hd : b.pager.view l.pgno = .ok d)
    (hp : LeafPage d (pageHeaderOffset l.pgno) l.start l.cells) (habs : key ∉ l.keys) :
    ∃ (page : Page) (t : Pager), b.pager.Reads t ∧ page.pgno = l.pgno ∧ page.data = d ∧
      insertIntoLeafTable l.pgno bytes key b = (do
        match ← lift (tryInsertLeafCell page.data (pageHeaderOffset l.pgno) bytes key) with
        | some data => do
          onPager (Pager.writePage { page with data := data })
          pure none
        | none => do
          let rightPgno ← onPager Pager.allocatePage
          onPager (initLeafPage rightPgno PAGE_TYPE_LEAF_TABLE)
          let (data, split) ← splitLeafTable page.data (pageHeaderOffset l.pgno) l.pgno rightPgno
            bytes key
          onPager (Pager.writePage { page with data := data })
          pure (some split) : BtreeM (Option LeafSplit)) { b with pager := t } := by
  obtain ⟨page, t, hget, hpg, rfl, ht⟩ := onPager_getPage hs (Pager.Reads.refl b.pager) hd
  refine ⟨page, t, ht, hpg, rfl, ?_⟩
  have hno : ¬ ∃ c ∈ l.cells, c.key = key := fun ⟨c, hc, hk⟩ =>
    habs (List.mem_map.mpr ⟨c, hc, hk⟩)
  rw [insertIntoLeafTable, bind_ok hget]
  change (lift (byteAt page.data (pageHeaderOffset l.pgno)) >>= _) _ = _
  rw [hp.byteAt, bind_ok (lift_ok _ _), if_neg (not_not.mpr rfl), hp.find key, if_neg hno]
  exact (bind_ok (lift_ok _ _) _).trans rfl

theorem insertLeaf_room (hs : b.pager.Ready) (hsize : SizeOk b.pager) (hl : LeafAt b.pager l)
    (hcell : TableCell bytes key record) (habs : key ∉ l.keys) (hroom : l.Room bytes.length) :
    ∃ t, insertIntoLeafTable l.pgno bytes key b = .ok none { b with pager := t } ∧
      Pager.Writes [l.pgno] b.pager t ∧ t.pageCount = b.pager.pageCount ∧
      LeafAt t (l.insert bytes (key, record)) := by
  obtain ⟨hle, d, hd, hlen, hp⟩ := hl
  obtain ⟨page, t, ht, hpg, rfl, hrun⟩ := insertIntoLeafTable_eq bytes hs hd hp habs
  obtain ⟨d', hins, hlen', hp'⟩ := hp.insert (hsize.start_lt hp.holds hlen) hcell hroom
  obtain ⟨t', hwrite, hw, hv, hpc, -⟩ := Pager.writePage_ready (ht.ready hs)
    { page with data := d' }
  rw [hpg] at hw hv
  have hall : Pager.Writes [l.pgno] b.pager t' := (ht.writes hs).trans hw
  refine ⟨t', ?_, hall, hpc.trans ht.pageCount, Nat.le_trans hle hall.pageCount, d', hv, ?_, hp'⟩
  · rw [hrun, hins, bind_ok (lift_ok _ _)]
    exact bind_ok (zoom_ok hwrite) _
  · rw [hlen', hlen, hall.pageSize]

/-- The two halves of a leaf. -/
theorem splitLeafTable_spec (hs : b.pager.Ready) (hsize : SizeOk b.pager) {d dr : Bytes} {r : Nat}
    (hp : LeafPage d (pageHeaderOffset l.pgno) l.start l.cells) (hlen : d.length = b.pager.pageSize)
    (hcell : TableCell bytes key record)
    (hbuilt : ∀ c ∈ l.cells, buildTableCell c.key c.record = .ok c.recoded.bytes ∧
      TableCell c.recoded.bytes c.key c.record) (hne : l.cells ≠ [])
    (hfit : l.recoded.HalvesFit b.pager.pageSize bytes (key, record)) (hvr : b.pager.view r = .ok dr)
    (hr : pageHeaderOffset r = 0) (hdr : Blank dr 0 b.pager.pageSize PAGE_TYPE_LEAF_TABLE) :
    ∃ t d' dr' divider, (l.recoded.lower bytes (key, record)).getLast? = some divider ∧
      splitLeafTable d (pageHeaderOffset l.pgno) l.pgno r bytes key b =
        .ok (d', ⟨l.pgno, divider.key, none, r⟩) { b with pager := t } ∧
      Pager.Writes [r] b.pager t ∧ t.pageCount = b.pager.pageCount ∧
      d'.length = b.pager.pageSize ∧
      LeafPage d' (pageHeaderOffset l.pgno)
        (b.pager.pageSize - total ((l.recoded.lower bytes (key, record)).map (·.bytes)))
        (placed b.pager.pageSize (l.recoded.lower bytes (key, record))) ∧
      t.view r = .ok dr' ∧ dr'.length = b.pager.pageSize ∧
      LeafPage dr' 0 (b.pager.pageSize - total ((l.recoded.upper bytes (key, record)).map (·.bytes)))
        (placed b.pager.pageSize (l.recoded.upper bytes (key, record))) := by
  have hh := pageHeaderOffset_le l.pgno
  have hpos := List.length_pos_iff.mpr hne
  have hcl := l.recoded.cellsWith_length bytes (key, record)
  rw [Leaf.recoded_length] at hcl
  have hcells := hp.cellsWith (fun c hc => (hbuilt c hc).1) ⟨0, bytes, (key, record)⟩
  change leafCellsWith d (pageHeaderOffset l.pgno) bytes key =
    .ok ((l.recoded.cellsWith bytes (key, record)).map fun c => (c.key, c.bytes)) at hcells
  have hok : ∀ c ∈ l.recoded.cellsWith bytes (key, record), TableCell c.bytes c.key c.record := fun c hc => by
    rcases Leaf.mem_cellsWith.mp hc with hc | rfl
    · obtain ⟨x, hx, rfl⟩ := List.mem_map.mp hc
      exact (hbuilt x hx).2
    · exact hcell
  have hlow : (l.recoded.cellsWith bytes (key, record)).take ((l.cells.length + 1) / 2) =
      l.recoded.lower bytes (key, record) := by rw [Leaf.lower, Leaf.recoded_length]
  have hupp : (l.recoded.cellsWith bytes (key, record)).drop ((l.cells.length + 1) / 2) =
      l.recoded.upper bytes (key, record) := by rw [Leaf.upper, Leaf.recoded_length]
  obtain ⟨h512, h32⟩ := hsize
  obtain ⟨d', e1, l1, p1⟩ := leafPage_rebuild (l.recoded.lower bytes (key, record)) (by omega) (by omega)
    hp.type (fun c hc => hok c (List.mem_of_mem_take hc)) (by rw [hlen]; exact hfit.1)
  obtain ⟨page, t1, hget, hpg, rfl, ht1⟩ := onPager_getPage hs (Pager.Reads.refl b.pager) hvr
  obtain ⟨dr', e2, l2, p2⟩ := leafPage_rebuild (d := page.data) (h := 0)
    (l.recoded.upper bytes (key, record)) (by rw [hdr.length]; omega) (by rw [hdr.length]; omega) hdr.type
    (fun c hc => hok c (List.mem_of_mem_drop hc)) (by rw [hdr.length, Nat.zero_add]; exact hfit.2)
  obtain ⟨t2, hwrite, hw, hv, hpc, -⟩ := Pager.writePage_ready (ht1.ready hs)
    { page with data := dr' }
  rw [hpg] at hw hv
  rw [hlen] at l1 p1
  rw [hdr.length] at l2 p2
  have hmid : (l.cells.length + 1) / 2 - 1 < (l.recoded.cellsWith bytes (key, record)).length := by omega
  refine ⟨t2, d', dr', (l.recoded.cellsWith bytes (key, record))[(l.cells.length + 1) / 2 - 1], ?_, ?_,
    (ht1.writes hs).trans hw, hpc.trans ht1.pageCount, l1, p1, hv, l2, p2⟩
  · rw [Leaf.lower, Leaf.recoded_length, List.getLast?_take, if_neg (by omega),
      List.getElem?_eq_getElem hmid]
    rfl
  · have hlen1 : ((l.recoded.cellsWith bytes (key, record)).map fun c => (LeafCell.key c, c.bytes)).length =
        l.cells.length + 1 := by rw [List.length_map, hcl]
    have hdiv : ((l.recoded.cellsWith bytes (key, record)).map fun c => (LeafCell.key c, c.bytes))[
        (l.cells.length + 1) / 2 - 1]? =
        some (LeafCell.key (l.recoded.cellsWith bytes (key, record))[(l.cells.length + 1) / 2 - 1],
          (l.recoded.cellsWith bytes (key, record))[(l.cells.length + 1) / 2 - 1].bytes) := by
      rw [List.getElem?_map, List.getElem?_eq_getElem hmid]
      rfl
    rw [splitLeafTable, hcells, bind_ok (lift_ok _ _)]
    simp only [hlen1]
    rw [if_neg (by omega), hdiv]
    simp only
    rw [← List.map_take, ← List.map_drop, hlow, hupp]
    change (lift (rebuildLeafTablePage d (pageHeaderOffset l.pgno)
      ((l.recoded.lower bytes (key, record)).map fun c => (LeafCell.key c, c.bytes))) >>= _) b = _
    rw [e1, bind_ok (lift_ok _ _), bind_ok hget, hr]
    change (lift (rebuildLeafTablePage page.data 0
      ((l.recoded.upper bytes (key, record)).map fun c => (LeafCell.key c, c.bytes))) >>= _) _ = _
    rw [e2, bind_ok (lift_ok _ _)]
    exact bind_ok (zoom_ok hwrite) _

theorem insertLeaf_split (hs : b.pager.Ready) (hsize : SizeOk b.pager) (hl : LeafAt b.pager l)
    (hcell : TableCell bytes key record)
    (hbuilt : ∀ c ∈ l.cells, buildTableCell c.key c.record = .ok c.bytes) (habs : key ∉ l.keys)
    (hfull : ¬ l.Room bytes.length) (hne : l.cells ≠ [])
    (hfit : l.HalvesFit b.pager.pageSize bytes (key, record)) (h1 : 1 ≤ b.pager.pageCount)
    (hn : b.pager.pageCount + 1 < 2 ^ 32) :
    ∃ t divider, (l.lower bytes (key, record)).getLast? = some divider ∧
      insertIntoLeafTable l.pgno bytes key b =
        .ok (some ⟨l.pgno, divider.key, none, b.pager.pageCount + 1⟩) { b with pager := t } ∧
      Pager.Writes [b.pager.pageCount + 1, l.pgno] b.pager t ∧
      t.pageCount = b.pager.pageCount + 1 ∧
      LeafAt t (.fresh l.pgno b.pager.pageSize (l.lower bytes (key, record))) ∧
      LeafAt t (.fresh (b.pager.pageCount + 1) b.pager.pageSize (l.upper bytes (key, record))) := by
  obtain ⟨hle, d, hd, hlen, hp⟩ := hl
  have hrec := Leaf.recoded_eq hbuilt
  have hre : ∀ c ∈ l.cells, buildTableCell c.key c.record = .ok c.recoded.bytes ∧
      TableCell c.recoded.bytes c.key c.record := fun c hc => by
    rw [LeafCell.recoded_eq (hbuilt c hc)]
    exact ⟨hbuilt c hc, hp.cell c hc⟩
  obtain ⟨page, t, ht, hpg, rfl, hrun⟩ := insertIntoLeafTable_eq bytes hs hd hp habs
  have hr0 : pageHeaderOffset (b.pager.pageCount + 1) = 0 := pageHeaderOffset_succ h1
  -- the new page
  obtain ⟨t1, halloc, hw1, -, hpc1⟩ := Pager.allocatePage_ready (ht.ready hs)
    (by rw [ht.pageCount]; exact hn)
  rw [ht.pageCount] at halloc hw1 hpc1
  have hw1 : Pager.Writes [b.pager.pageCount + 1] b.pager t1 := (ht.writes hs).trans hw1
  obtain ⟨t2, dr, hinit, hw2, hpc2, hvr, hblank⟩ := initPage_spec hw1.ready (hsize.writes hw1)
    (Nat.le_add_left 1 b.pager.pageCount) PAGE_TYPE_LEAF_TABLE
  have hw2 : Pager.Writes [b.pager.pageCount + 1] b.pager t2 :=
    (hw1.trans hw2).mono fun p hp => by simpa using hp
  rw [hr0, hw1.pageSize, ← hw2.pageSize] at hblank
  -- the halves
  obtain ⟨t3, d', dr', divider, hdiv, hsplit, hw3, hpc3, hl', hp', hvr', hlr', hpr'⟩ :=
    splitLeafTable_spec (b := { b with pager := t2 }) hw2.ready (hsize.writes hw2) hp
      (hlen.trans hw2.pageSize.symm) hcell hre hne (by rw [hrec, hw2.pageSize]; exact hfit) hvr hr0
      hblank
  rw [hrec] at hdiv
  simp only [hw2.pageSize, hrec] at hl' hp' hlr' hpr'
  obtain ⟨t4, hwrite, hw4, hv4, hpc4, -⟩ := Pager.writePage_ready hw3.ready
    { page with data := d' }
  rw [hpg] at hw4 hv4
  have hall : Pager.Writes [b.pager.pageCount + 1, l.pgno] b.pager t4 :=
    ((hw2.trans hw3).trans hw4).mono fun p hp => by
      simp at hp ⊢
      omega
  refine ⟨t4, divider, hdiv, ?_, hall, ?_, ⟨?_, d', hv4, ?_, hp'⟩, ⟨?_, dr', ?_, ?_, ?_⟩⟩
  · have hfull' : tryInsertLeafCell page.data (pageHeaderOffset l.pgno) bytes key = .ok none :=
      hp.full (hsize.start_lt hp.holds hlen) (by rw [Leaf.Room] at hfull; omega)
    have ha : onPager Pager.allocatePage { b with pager := t } =
        .ok (b.pager.pageCount + 1) { b with pager := t1 } := zoom_ok halloc
    have hi : onPager (initLeafPage (b.pager.pageCount + 1) PAGE_TYPE_LEAF_TABLE)
        { b with pager := t1 } = .ok () { b with pager := t2 } := zoom_ok hinit
    rw [hrun, hfull', bind_ok (lift_ok _ _)]
    refine (bind_ok ha _).trans ((bind_ok hi _).trans ((bind_ok hsplit _).trans ?_))
    exact bind_ok (zoom_ok hwrite) _
  · rw [hpc4, hpc3]
    exact hpc2.trans hpc1
  · exact Nat.le_trans hle hall.pageCount
  · rw [hl', hall.pageSize]
  · rw [hpc4, hpc3]
    exact (hpc2.trans hpc1).ge
  · refine hw4.keep _ _ ?_ hvr'
    rw [List.mem_singleton]
    exact Nat.ne_of_gt (Nat.lt_succ_of_le hle)
  · rw [hlr', hall.pageSize]
  · simp only [Leaf.fresh, hr0]
    exact hpr'

end

/-! ## Roots -/

/-- A new root above the halves of the old one. -/
theorem promote_spec {b : Btree} (hs : b.pager.Ready) (hsize : SizeOk b.pager)
    (hf : b.flags = tableFlags) (key : Int) (right : Nat) (hk : KeyOk key)
    (hleft : b.rootPage < 2 ^ 32) (hright : right < 2 ^ 32) (h1 : 1 ≤ b.pager.pageCount)
    (hn : b.pager.pageCount + 1 < 2 ^ 32) :
    ∃ t ptr bytes, promoteRootSplit ⟨b.rootPage, key, none, right⟩ b =
        .ok () { b with pager := t, rootPage := b.pager.pageCount + 1 } ∧
      Pager.Writes [b.pager.pageCount + 1] b.pager t ∧ t.pageCount = b.pager.pageCount + 1 ∧
      InteriorAt t (b.pager.pageCount + 1) [⟨ptr, bytes, (b.rootPage, key)⟩] right := by
  have hh0 : pageHeaderOffset (b.pager.pageCount + 1) = 0 := pageHeaderOffset_succ h1
  obtain ⟨h512, h32⟩ := hsize
  have hblob : b.flags.blobkey = false := by rw [hf]; rfl
  have hmod : b.pager.pageSize % 65536 = b.pager.pageSize := Nat.mod_eq_of_lt (by omega)
  obtain ⟨cell, hcell, hic, h5, h12⟩ := buildInteriorTableCell_ok b.rootPage hk hleft
  obtain ⟨t1, halloc, hw1, -, hpc1⟩ := Pager.allocatePage_ready hs hn
  -- the page, write by write
  obtain ⟨d1, e1, a1, o1⟩ := copyInto_outside (List.replicate b.pager.pageSize 0) 0
    [PAGE_TYPE_INTERIOR_TABLE] (by rw [List.length_replicate, List.length_singleton]; omega)
  obtain ⟨d2, e2, -, o2⟩ := writeU16Be_outside d1 5 b.pager.pageSize
    (by rw [o1.1, List.length_replicate]; omega)
  obtain ⟨d3, e3, a3, o3⟩ := copyInto_outside d2 8 (be32 right)
    (by rw [o2.1, o1.1, List.length_replicate, be32_length]; omega)
  obtain ⟨d4, e4, a4, o4⟩ := copyInto_outside d3 (b.pager.pageSize - cell.length) cell
    (by rw [o3.1, o2.1, o1.1, List.length_replicate]; omega)
  obtain ⟨d5, e5, a5, o5⟩ := writeU16Be_outside d4 3 1
    (by rw [o4.1, o3.1, o2.1, o1.1, List.length_replicate]; omega)
  obtain ⟨d6, e6, a6, o6⟩ := writeU16Be_outside d5 12 (b.pager.pageSize - cell.length)
    (by rw [o5.1, o4.1, o3.1, o2.1, o1.1, List.length_replicate]; omega)
  have hlen : d6.length = b.pager.pageSize := by
    rw [o6.1, o5.1, o4.1, o3.1, o2.1, o1.1, List.length_replicate]
  rw [List.length_singleton] at o1
  rw [be32_length] at o3
  obtain ⟨t2, hwrite, hw2, hv2, hpc2, -⟩ := Pager.writePage_ready hw1.ready
    { pgno := b.pager.pageCount + 1, data := d6, dirty := true }
  have hall : Pager.Writes [b.pager.pageCount + 1] b.pager t2 :=
    (hw1.trans hw2).mono fun p hp => by simpa using hp
  refine ⟨t2, b.pager.pageSize - cell.length, cell, ?_, hall, hpc2.trans hpc1,
    (hpc2.trans hpc1).ge, d6, hv2, hlen.trans hall.pageSize.symm, ?_⟩
  · have ha : onPager Pager.allocatePage b =
        .ok (b.pager.pageCount + 1) { b with pager := t1 } := zoom_ok halloc
    have hw : onPager (Pager.writePage { pgno := b.pager.pageCount + 1, data := d6, dirty := true })
        { b with pager := t1 } = .ok () { b with pager := t2 } := zoom_ok hwrite
    rw [promoteRootSplit, bind_ok (get_apply _), bind_ok ha]
    simp only [hh0, hblob, Bool.false_eq_true, if_false, Nat.zero_add, hmod, buildDividerCell,
      hcell]
    change (writeU32Be d2 8 right = _) at e3
    rw [e1, bind_ok (lift_ok _ _), e2, bind_ok (lift_ok _ _), e3, bind_ok (lift_ok _ _),
      bind_ok (lift_ok _ _), if_neg (by omega), e4, bind_ok (lift_ok _ _), e5,
      bind_ok (lift_ok _ _), e6, bind_ok (lift_ok _ _), bind_ok hw]
    rfl
  · rw [hh0]
    refine ⟨?_, ⟨?_, fun i p c hi => ?_, fun s hs => ?_, fun s hs => ?_, fun s hs => ?_, ?_, ?_⟩,
      fun c hc => ?_, ?_, hright⟩
    · rw [o6.2 0 (by omega), o5.2 0 (by omega), o4.2 0 (by omega), o3.2 0 (by omega),
        o2.2 0 (by omega), ← At.singleton]
      exact a1
    · exact (o6.at_iff (.inl (by simp [interiorLayout]))).mpr a5
    · rcases i with _ | i
      · cases hi
        exact a6
      · cases hi
    · rw [List.mem_singleton.mp hs]
      exact (o6.at_iff (.inr (by simp only [Cell.slot]; omega))).mpr
        ((o5.at_iff (.inr (by simp only [Cell.slot]; omega))).mpr a4)
    · rw [List.mem_singleton.mp hs, hlen]
      simp only [Cell.slot]; omega
    · rw [List.mem_singleton.mp hs]
      simp only [Cell.slot]; omega
    · simp
    · omega
    · rw [List.mem_singleton.mp hc]
      exact hic
    · exact (o6.at_iff (.inl (by rw [be32_length]))).mpr ((o5.at_iff (.inr (by decide))).mpr
        ((o4.at_iff (.inl (by rw [be32_length]; omega))).mpr a3))

end Btree

end Sqllite
