import Sqllite.L2Storage.FileCalls
import Sqllite.L2Storage.LeafSplit

/-!
# Content offsets

A page keeps the offset of its lowest cell in two bytes, so that the offset 65536
of a page of that size with no cells is kept as 0. Three functions write it: the
initialisation of a page, the layout of a page afresh and `promote_root_split`,
which writes the end of the page and puts its cell below.

* `contentOffsets_iff`: what reads back as it should, by page size.
-/
namespace Sqllite
open Lib Lib.Run Lib.Span Lib.Slotted

namespace Btree

/-! ## New leaves -/

/-- What an initialisation left that returned. -/
theorem initPage_eq_ok {s s' : Pager} {p : Nat} {pageType : UInt8} (h512 : 512 ≤ s.pageSize)
    (h : initPage p pageType s = .ok () s') :
    ∃ d, s'.view p = .ok d ∧ Blank d (pageHeaderOffset p) s.pageSize pageType := by
  have hh := pageHeaderOffset_le p
  rw [initPage, bind_ok (get_apply s)] at h
  obtain ⟨d1, e1, h1⟩ := lift_bind_eq_ok.mp h
  obtain ⟨d2, e2, h2⟩ := lift_bind_eq_ok.mp h1
  obtain ⟨⟨⟩, s3, h3, h4⟩ := bind_eq_ok.mp h2
  obtain ⟨a1, o1⟩ := copyInto_eq_ok e1
  obtain ⟨a2, o2⟩ := copyInto_eq_ok e2
  rw [List.length_singleton] at o1
  rw [be16_length] at o2
  -- the page is in the cache, and the write of the file does not look there
  have hcached : s3.cache.lookup p = some ⟨d2, true⟩ := Pager.writePage_eq_ok h3
  have hkeep := Pager.writePageDirect_keeps (I := fun t => t.cache.lookup p = some ⟨d2, true⟩)
    (fun _ _ _ _ _ hc => hc) p d2 s3 hcached
  rw [h4] at hkeep
  refine ⟨d2, Pager.view_cached hkeep, ⟨?_, ?_, ?_, a2⟩⟩
  · rw [o2.1, o1.1, List.length_replicate]
  · rw [o2.2 _ (by omega), ← At.singleton]
    exact a1
  · have hz : At (List.replicate s.pageSize 0) (pageHeaderOffset p + 3) (be16 0) := fun i hi => by
      rw [be16_length] at hi
      rw [List.getElem?_replicate, if_pos (by omega)]
      rcases (by omega : i = 0 ∨ i = 1) with rfl | rfl <;> rfl
    exact (o2.at_iff (.inl (by rw [be16_length]))).mpr ((o1.at_iff (.inr (by omega))).mpr hz)

section
variable {d cell : Bytes} {size : Nat} {pageType : UInt8} {before : Nat → Result Bool}

/-- A new page below 65536 bytes takes every cell of half its size. -/
theorem Blank.takes (hd : Blank d 0 size pageType) (h512 : 512 ≤ size) (hsize : size < 65536)
    (hcell : cell.length ≤ size / 2) :
    ∃ d', tryInsertCell (leafLayout 0) before d cell = .ok (some d') := by
  have hholds : Holds (leafLayout 0) d size (([] : List Slot).map id) :=
    hd.holds (Nat.zero_le 100) h512 (by omega)
  have hbefore : ∀ c ∈ ([] : List Slot), before (id c).1 = .ok ((fun _ => true) c) :=
    fun c hc => by cases hc
  have hroom : (leafLayout 0).ptr (([] : List Slot).length + 1) + 1 ≤ size - cell.length := by
    simp only [leafLayout, Layout.ptr, List.length_nil]
    omega
  obtain ⟨d', hrun, -⟩ := tryInsertCell_spec hholds hsize hbefore hroom
  exact ⟨d', hrun⟩

/-- Above the content offset 0 there is no room for anything. -/
theorem Blank.refuses (hd : Blank d 0 65536 pageType) :
    tryInsertCell (leafLayout 0) before d cell = .ok none := by
  have hcount : readU16Be d (leafLayout 0).count = .ok 0 := readU16Be_mod hd.count
  have hcontent : readU16Be d (leafLayout 0).content = .ok 0 := readU16Be_mod hd.content
  rw [tryInsertCell, hcount, Res.ok_bind, findSlot, Res.ok_bind, hcontent, Res.ok_bind,
    if_pos (by simp only [leafLayout, Layout.ptr]; omega)]
  rfl

theorem Blank.takes_iff (hd : Blank d 0 size pageType) (h512 : 512 ≤ size) (hmax : size ≤ 65536)
    (hcell : cell.length ≤ size / 2) :
    (∃ d', tryInsertCell (leafLayout 0) before d cell = .ok (some d')) ↔ size ≠ 65536 := by
  constructor
  · intro ⟨d', hrun⟩ heq
    subst heq
    rw [hd.refuses] at hrun
    cases hrun
  · intro hne
    exact hd.takes h512 (by omega) hcell

end

/-! ## New roots -/

/-- What a new root holds behind the promotion that returned. -/
theorem promoteRootSplit_eq_ok {b b' : Btree} {split : LeafSplit} {cell : Bytes}
    (hrun : promoteRootSplit split b = .ok () b')
    (hb : buildDividerCell b.flags b.rootPage split = .ok cell) :
    ∃ d, b'.pager.view b'.rootPage = .ok d ∧ cell.length ≤ b.pager.pageSize % 65536 ∧
      (pageHeaderOffset b'.rootPage + 14 ≤ b.pager.pageSize % 65536 - cell.length →
        At d (pageHeaderOffset b'.rootPage + 5) (be16 (b.pager.pageSize % 65536))) := by
  rw [promoteRootSplit, bind_ok (get_apply b)] at hrun
  obtain ⟨newRoot, t, halloc, h1⟩ := zoom_bind_eq_ok hrun
  obtain ⟨d1, e1, h2⟩ := lift_bind_eq_ok.mp h1
  obtain ⟨d2, e2, h3⟩ := lift_bind_eq_ok.mp h2
  obtain ⟨d3, e3, h4⟩ := lift_bind_eq_ok.mp h3
  obtain ⟨cell', e4, h5⟩ := lift_bind_eq_ok.mp h4
  cases hb.symm.trans e4
  split at h5
  · cases h5
  · next hle =>
    obtain ⟨d4, e5, h6⟩ := lift_bind_eq_ok.mp h5
    obtain ⟨d5, e6, h7⟩ := lift_bind_eq_ok.mp h6
    obtain ⟨d6, e7, h8⟩ := lift_bind_eq_ok.mp h7
    obtain ⟨u, t', hwrite, h9⟩ := zoom_bind_eq_ok h8
    cases h9
    refine ⟨d6, Pager.view_cached (Pager.writePage_eq_ok hwrite), by omega, fun hroom => ?_⟩
    obtain ⟨a2, -⟩ := copyInto_eq_ok e2
    obtain ⟨-, o3⟩ := copyInto_eq_ok e3
    obtain ⟨-, o5⟩ := copyInto_eq_ok e5
    obtain ⟨-, o6⟩ := copyInto_eq_ok e6
    obtain ⟨-, o7⟩ := copyInto_eq_ok e7
    change pageHeaderOffset newRoot + 14 ≤ _ at hroom
    change At d6 (pageHeaderOffset newRoot + 5) _
    rw [be16_length] at o6 o7
    exact (o7.at_iff (.inl (by rw [be16_length]; omega))).mpr
      ((o6.at_iff (.inr (by omega))).mpr
      ((o5.at_iff (.inl (by rw [be16_length]; omega))).mpr
      ((o3.at_iff (.inl (by rw [be16_length]; omega))).mpr a2)))

theorem buildDividerCell_length {flags : BtreeFlags} {child : Nat} {split : LeafSplit} {cell : Bytes}
    (h : buildDividerCell flags child split = .ok cell) : 4 ≤ cell.length := by
  rw [buildDividerCell] at h
  split at h
  · split at h
    · cases h
    · obtain ⟨n, -, h⟩ := Res.bind_eq_ok.mp h
      cases h
      rw [List.length_append, be32_length]
      omega
  · obtain ⟨k, -, h⟩ := Res.bind_eq_ok.mp h
    cases h
    rw [List.length_append, be32_length]
    omega

/-- The new root's content offset is that of its cell. -/
def PromotesTruly (b : Btree) (split : LeafSplit) (cell : Bytes) : Prop :=
  ∃ b' d, promoteRootSplit split b = .ok () b' ∧ b'.pager.view b'.rootPage = .ok d ∧
    readU16Be d (pageHeaderOffset b'.rootPage + 5) = .ok (b.pager.pageSize - cell.length)

theorem not_promotesTruly {b : Btree} {split : LeafSplit} {cell : Bytes}
    (h512 : 512 ≤ b.pager.pageSize) (hmax : b.pager.pageSize ≤ 65536)
    (hb : buildDividerCell b.flags b.rootPage split = .ok cell)
    (hcell : cell.length ≤ b.pager.pageSize / 2) : ¬ PromotesTruly b split cell := by
  intro ⟨b', d, hrun, hv, hread⟩
  obtain ⟨d', hv', hle, hcontent⟩ := promoteRootSplit_eq_ok hrun hb
  cases hv.symm.trans hv'
  have hfour := buildDividerCell_length hb
  have hh := pageHeaderOffset_le b'.rootPage
  have hread' := readU16Be_mod (hcontent (by omega))
  have := Except.ok.inj (hread.symm.trans hread')
  omega

/-! ## Pages laid out afresh -/

/-- What one of the four functions makes of a page. -/
inductive Rebuilt (d : Bytes) (h : Nat) : List Bytes → Bytes → Prop
  | leafTable {cells : List (Int × Bytes)} {d' : Bytes} :
      rebuildLeafTablePage d h cells = .ok d' → Rebuilt d h (cells.map (·.2)) d'
  | leafIndex {cells : List Bytes} {d' : Bytes} :
      rebuildLeafIndexPage d h cells = .ok d' → Rebuilt d h cells d'
  | interiorTable {cells : List Bytes} {right : Nat} {d' : Bytes} :
      rebuildInteriorTablePage d h cells right = .ok d' → Rebuilt d h cells d'
  | interiorIndex {cells : List Bytes} {right : Nat} {d' : Bytes} :
      rebuildInteriorIndexPage d h cells right = .ok d' → Rebuilt d h cells d'

theorem Rebuilt.content {d d' : Bytes} {h : Nat} {cells : List Bytes} (hr : Rebuilt d h cells d') :
    At d' (h + 5) (be16 (d.length - total cells)) := by
  cases hr with
  | leafTable hrun => exact (rebuildPage_header (leafLayout_header h) hrun).2.2.1
  | leafIndex hrun => exact (rebuildPage_header (leafLayout_header h) hrun).2.2.1
  | interiorTable hrun => exact (rebuildPage_header (interiorLayout_header h _) hrun).2.2.1
  | interiorIndex hrun => exact (rebuildPage_header (interiorLayout_header h _) hrun).2.2.1

theorem Rebuilt.content_iff {d d' : Bytes} {h : Nat} {cells : List Bytes}
    (hr : Rebuilt d h cells d') (hmax : d.length ≤ 65536) :
    readU16Be d' (h + 5) = .ok (d.length - total cells) ↔ d.length - total cells ≠ 65536 := by
  rw [readU16Be_mod hr.content, Except.ok.injEq]
  omega

/-! ## By page size -/

/-- A new leaf takes a cell of half its size on every page but one of 65536
bytes, a new root never has the content offset of its cell, and a page that is
laid out afresh has it unless the offset is 65536. -/
theorem contentOffsets_iff {size : Nat} (hmin : MIN_PAGE_SIZE ≤ size) (hmax : size ≤ MAX_PAGE_SIZE) :
    (∀ s s' p pageType d cell key divider, Pager.pageSize s = size → p ≠ ROOT_PAGE →
      initLeafPage p pageType s = .ok () s' → s'.view p = .ok d → cell.length ≤ size / 2 →
      ((∃ d', tryInsertLeafCell d (pageHeaderOffset p) cell key = .ok (some d')) ↔ size ≠ 65536) ∧
      ((∃ d', tryInsertLeafCellIndex d (pageHeaderOffset p) cell divider = .ok (some d')) ↔
        size ≠ 65536)) ∧
    (∀ b split cell, b.pager.pageSize = size → buildDividerCell b.flags b.rootPage split = .ok cell →
      cell.length ≤ size / 2 → ¬ PromotesTruly b split cell) ∧
    ∀ d h cells d', d.length = size → Rebuilt d h cells d' →
      (readU16Be d' (h + 5) = .ok (size - total cells) ↔ size - total cells ≠ 65536) := by
  refine ⟨?_, ?_, ?_⟩
  · intro s s' p pageType d cell key divider hs hp hrun hv hcell
    have hh : pageHeaderOffset p = 0 := if_neg hp
    obtain ⟨d', hv', hblank⟩ := initPage_eq_ok (hs ▸ hmin) hrun
    cases hv.symm.trans hv'
    rw [hh, hs] at hblank
    rw [hh]
    exact ⟨hblank.takes_iff hmin hmax hcell, hblank.takes_iff hmin hmax hcell⟩
  · intro b split cell hb hbuild hcell
    subst hb
    exact not_promotesTruly hmin hmax hbuild hcell
  · intro d h cells d' hd hr
    subst hd
    exact hr.content_iff hmax

/-- The halves of page 2, with the divider 7. -/
def rootSplit : LeafSplit := ⟨2, 7, none, 3⟩

/-- A page with two cells of a byte. -/
def twoCells : Bytes := image (rebuildLeafIndexPage (List.replicate 512 0) 0 [[1], [2]])

theorem twoCells_rebuilt : Rebuilt (List.replicate 512 0) 0 [[1], [2]] twoCells := by
  refine .leafIndex ?_
  rw [twoCells, image]
  exact Res.eq_ok_getD (by decide +kernel)

theorem contentOffsets_iff_small :
    ¬ PromotesTruly besideNew rootSplit [0, 0, 0, 2, 7] ∧
      (readU16Be twoCells 5 = .ok (512 - total [[1], [2]]) ↔ 512 - total [[1], [2]] ≠ 65536) :=
  have h := contentOffsets_iff (show MIN_PAGE_SIZE ≤ 512 by decide) (show 512 ≤ MAX_PAGE_SIZE by decide)
  ⟨h.2.1 besideNew rootSplit [0, 0, 0, 2, 7] rfl rfl (by decide),
    h.2.2 _ 0 _ _ List.length_replicate twoCells_rebuilt⟩

/-- The new root of 512 bytes has its cell at 507 and says 512. -/
theorem promoteRootSplit_says_end :
    buildDividerCell besideNew.flags besideNew.rootPage rootSplit = .ok [0, 0, 0, 2, 7] ∧
    (outcome (do
      promoteRootSplit rootSplit
      let page ← onPager (Pager.getPage 4)
      let start ← lift (readU16Be page.data 5)
      let ptr ← lift (readU16Be page.data 12)
      pure (start, ptr)) besideNew).toOption = some (512, 507) ∧
    ¬ PromotesTruly besideNew rootSplit [0, 0, 0, 2, 7] :=
  ⟨rfl, by decide +kernel, not_promotesTruly (by decide) (by decide) rfl (by decide)⟩

end Btree
end Sqllite
