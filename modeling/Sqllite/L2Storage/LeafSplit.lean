import Sqllite.L2Storage.InsertRun

/-!
# A leaf that takes a cell, and a leaf that is split

`SoundLeaf d h cells` says that `d` is a leaf page with these cells, by
ascending key. `try_insert_leaf_cell` keeps it. `split_leaf_table` deals the
cells out by number and lays both pages out without looking whether they fit.

* `tryInsertLeafCell_sound`: one cell more, or the page as it was.
* `splitLeafTable_sound_iff`: the split is sound exactly when the halves fit and
  the keys survive being encoded again.
-/
namespace Sqllite
open Lib Lib.Run Lib.Span Lib.Slotted

/-- A leaf page whose keys ascend. -/
structure SoundLeaf (d : Bytes) (h : Nat) (cells : List LeafCell) : Prop where
  page : ∃ start, LeafPage d h start cells
  sorted : (cells.map (·.key)).Pairwise (· < ·)

/-- The rows with one more, in key order. -/
def insertRow (row : Row) (rows : List Row) : List Row :=
  rows.orderedInsert (fun a b => a.1 ≤ b.1) row

/-! ## A cell more -/

theorem insertIdx_rows (c : LeafCell) : ∀ {cells : List LeafCell}, c.key ∉ cells.map (·.key) →
    (cells.insertIdx (insertPos cells c.key) c).map (·.val) = insertRow c.val (cells.map (·.val))
  | [], _ => rfl
  | a :: cells, hno => by
    rw [List.map_cons, List.mem_cons, not_or] at hno
    have ih := insertIdx_rows c hno.2
    rw [insertRow] at ih ⊢
    rw [insertPos, List.findIdx_cons, List.map_cons, List.orderedInsert_cons]
    by_cases hlt : c.key < a.key
    · have hle : c.val.1 ≤ a.val.1 := Int.le_of_lt hlt
      simp only [hlt, decide_true, cond_true, List.insertIdx_zero, List.map_cons, if_pos hle]
    · have hgt : ¬ c.val.1 ≤ a.val.1 := fun hle => hlt (Std.lt_of_le_of_ne hle hno.1)
      simp only [hlt, decide_false, cond_false, List.insertIdx_succ_cons, List.map_cons, if_neg hgt]
      rw [← ih]
      rfl

theorem buildTableCell_length {key : Int} {record bytes : Bytes}
    (h : buildTableCell key record = .ok bytes) : record.length ≤ bytes.length := by
  obtain ⟨k, -, h⟩ := Res.bind_eq_ok.mp h
  obtain ⟨n, -, h⟩ := Res.bind_eq_ok.mp h
  cases h
  simp only [List.length_append]
  omega

theorem tableCell_of_build {key : Int} {record bytes : Bytes} (hk : KeyOk key)
    (hr : record.length < 2 ^ 56) (hb : buildTableCell key record = .ok bytes) :
    TableCell bytes key record := by
  obtain ⟨bytes', hb', hcell, -⟩ := buildTableCell_ok record hk hr
  cases hb.symm.trans hb'
  exact hcell

/-- What the caller of `try_insert_leaf_cell` has behind the call: the room test
stands in front of the first write. -/
def pageAfter (d : Bytes) (r : Option Bytes) : Bytes := r.getD d

/-- A leaf takes a cell in key order, the others stay where and what they are, or
there is no room and the page stays as it is. -/
theorem tryInsertLeafCell_sound {d bytes record : Bytes} {h : Nat} {key : Int}
    {cells : List LeafCell} (hp : SoundLeaf d h cells) (hsize : d.length ≤ 32768) (hk : KeyOk key)
    (hb : buildTableCell key record = .ok bytes) (habs : key ∉ cells.map (·.key)) :
    ∃ r, tryInsertLeafCell d h bytes key = .ok r ∧ (r = none → pageAfter d r = d) ∧
      (r ≠ none → (pageAfter d r).length = d.length ∧ ∃ cells', SoundLeaf (pageAfter d r) h cells' ∧
        cells'.map (·.val) = insertRow (key, record) (cells.map (·.val)) ∧ ∀ c ∈ cells, c ∈ cells') := by
  obtain ⟨start, hpage⟩ := hp.page
  have htop := hpage.holds.top
  by_cases hroom : h + 8 + (cells.length + 1) * 2 + 1 ≤ start - bytes.length
  · have hlen := buildTableCell_length hb
    have hcell := tableCell_of_build hk (by omega) hb
    obtain ⟨d', hrun, hlen', hpage'⟩ := hpage.insert (by omega) hcell hroom
    refine ⟨some d', hrun, (by rintro ⟨⟩), fun _ => ⟨hlen', _, ⟨⟨_, hpage'⟩, ?_⟩, ?_, ?_⟩⟩
    · exact insertIdx_sorted ⟨start - bytes.length, bytes, (key, record)⟩ hp.sorted habs
    · exact insertIdx_rows ⟨start - bytes.length, bytes, (key, record)⟩ habs
    · intro c hc
      exact (List.mem_insertIdx (insertPos_le _ _)).mpr (.inr hc)
  · exact ⟨none, hpage.full (by omega) (by omega), fun _ => rfl, fun hnone => absurd rfl hnone⟩

/-! ## The cells of a split -/

theorem sortCells_rows (c : LeafCell) {cells : List LeafCell}
    (h : (cells.map (·.key)).Pairwise (· < ·)) (hno : c.key ∉ cells.map (·.key)) :
    (sortCells (cells ++ [c])).map (·.val) = insertRow c.val (cells.map (·.val)) := by
  have hsort := List.pairwise_map.mp (sortCells_sorted c h hno)
  have hins := List.pairwise_map.mp (insertIdx_sorted c h hno)
  have hperm : (sortCells (cells ++ [c])).Perm (cells.insertIdx (insertPos cells c.key) c) :=
    (List.perm_insertionSort _ _).trans
      (List.perm_append_comm.trans (List.perm_insertIdx _ _ (insertPos_le _ _)).symm)
  rw [hperm.eq_of_pairwise (fun a b _ _ hab hba => (Int.lt_asymm hab hba).elim) hsort hins]
  exact insertIdx_rows c hno

/-- The divider stands between the halves. -/
theorem lower_le_divider {lower upper : List LeafCell} {divider : LeafCell}
    (hsort : ((lower ++ upper).map (·.key)).Pairwise (· < ·)) (hdiv : lower.getLast? = some divider) :
    (∀ c ∈ lower, c.key ≤ divider.key) ∧ ∀ c ∈ upper, divider.key < c.key := by
  rw [List.map_append] at hsort
  obtain ⟨hlow, -, hcross⟩ := List.pairwise_append.mp hsort
  constructor
  · intro c hc
    rw [← List.dropLast_append_getLast? _ hdiv] at hc hlow
    rw [List.map_append] at hlow
    obtain ⟨-, -, hlast⟩ := List.pairwise_append.mp hlow
    rcases List.mem_append.mp hc with hc | hc
    · exact Int.le_of_lt (hlast _ (List.mem_map_of_mem hc) _ (List.mem_singleton_self _))
    · rw [List.mem_singleton.mp hc]
  · intro c hc
    exact hcross _ (List.mem_map_of_mem (List.mem_of_getLast? hdiv)) _ (List.mem_map_of_mem hc)

/-- The key of a cell that was built, read where the cell stands. -/
theorem readCellRowid_built {d bytes record : Bytes} {key : Int} {ptr : Nat}
    (hkey : -2 ^ 63 ≤ key ∧ key < 2 ^ 63) (hb : buildTableCell key record = .ok bytes)
    (hat : At d ptr bytes) :
    ∃ key' off, readCellRowid d ptr = .ok (key', off) ∧ (key' = key ↔ KeyOk key) := by
  obtain ⟨k, hk, hb⟩ := Res.bind_eq_ok.mp hb
  obtain ⟨n, -, hb⟩ := Res.bind_eq_ok.mp hb
  cases hb
  obtain ⟨u, hu, hiff⟩ := rowid_isVarint hkey.1 hkey.2 hk
  refine ⟨asI64 u, ptr + k.length, ?_, hiff⟩
  rw [readCellRowid, hu.read (At.append.mp hat).1]
  rfl

/-! ## Leaves laid out by a split -/

/-- A leaf that was laid out and is one: its cells fit. -/
theorem rebuildLeaf_fits {d d' : Bytes} {h start : Nat} {xs cells : List LeafCell}
    (hrun : rebuildLeafTablePage d h (xs.map fun c => (c.key, c.bytes)) = .ok d')
    (hd : d.length < 65536) (hn : xs.length < 65536)
    (hp : LeafPage d' h start cells) :
    cells.length = xs.length ∧ h + 8 + leafSize xs ≤ d.length := by
  rw [rebuildLeafTablePage, List.map_map] at hrun
  change rebuildPage (leafLayout h) h none d (xs.map (·.bytes)) = _ at hrun
  obtain ⟨htotal, -, hcount, hroom⟩ := rebuildPage_fits (leafLayout_header h) hrun hd
    (by rwa [List.length_map]) hp.holds
  rw [List.length_map, List.length_map] at hcount
  rw [List.length_map] at hroom
  simp only [leafLayout] at hroom
  exact ⟨hcount, by rw [leafSize]; omega⟩

/-- A leaf that was laid out and has the keys it should: they survived. -/
theorem rebuildLeaf_keys {d d' : Bytes} {h start : Nat} {xs cells : List LeafCell}
    (hrun : rebuildLeafTablePage d h (xs.map fun c => (c.key, c.bytes)) = .ok d')
    (hd : d.length < 65536) (h12 : h + 12 ≤ d.length) (hfit : h + 8 + leafSize xs ≤ d.length)
    (hp : LeafPage d' h start cells) (hkeys : cells.map (·.key) = xs.map (·.key))
    (hb : ∀ c ∈ xs, (-2 ^ 63 ≤ c.key ∧ c.key < 2 ^ 63) ∧
      buildTableCell c.key c.record = .ok c.bytes) : ∀ c ∈ xs, KeyOk c.key := by
  rw [rebuildLeafTablePage, List.map_map] at hrun
  change rebuildPage (leafLayout h) h none d (xs.map (·.bytes)) = _ at hrun
  rw [leafSize] at hfit
  obtain ⟨d'', hrun', -, hholds, -⟩ := rebuildPage_spec (leafLayout_header h) (xs.map (·.bytes)) h12
    hd (by omega) (by rw [List.length_map]; simp only [leafLayout]; omega)
  cases hrun.symm.trans hrun'
  intro c hc
  obtain ⟨i, hi, rfl⟩ := List.mem_iff_getElem.mp hc
  have hlen : cells.length = xs.length := by simpa using congrArg List.length hkeys
  have hkey : cells[i].key = xs[i].key := by
    have := congrArg (·[i]?) hkeys
    simpa [hi, hlen ▸ hi] using this
  -- the slot that was laid out is where the reader of the page looks
  have hget : (xs.map (·.bytes))[i]? = some xs[i].bytes := by
    rw [List.getElem?_map, List.getElem?_eq_getElem hi]; rfl
  obtain ⟨ptr, hslot⟩ := freshSlots_getElem? d.length hget
  have hat := hholds.cell _ (List.mem_of_getElem? hslot)
  have hci : i < cells.length := hlen ▸ hi
  have hptr : cells[i].ptr = ptr := by
    have h1 := readU16Be_at (hholds.ptr i _ _ hslot) (hholds.ptr_lt hslot)
    have h2 := hp.ptr (List.getElem?_eq_getElem hci)
    exact (Except.ok.inj (h1.symm.trans h2)).symm
  obtain ⟨hrange, hbuild⟩ := hb _ hc
  obtain ⟨key', off, hread, hiff⟩ := readCellRowid_built hrange hbuild hat
  have hread' := (hp.readCell (List.getElem_mem hci)).1
  rw [hptr, hread] at hread'
  exact hiff.mp ((congrArg Prod.fst (Except.ok.inj hread')).trans hkey)

/-! ## The split -/

theorem collectCells_eq_ok {κ α : Type} {slot : κ → Slot} {L : Layout} {d : Bytes} {cells : List κ}
    (h : Lists L d (cells.map slot)) {f : Nat → Result α} : ∀ (n i : Nat) {as : List α},
    i + n = cells.length → collectCells L d f n i = .ok as →
    ∀ c ∈ cells.drop i, ∃ a, f (slot c).1 = .ok a
  | 0, i, _, hn, _, c, hc => by
    rw [List.drop_eq_nil_of_le (by omega)] at hc
    cases hc
  | n + 1, i, as, hn, hrun, c, hc => by
    obtain ⟨x, hx, hdrop⟩ := drop_getElem hn
    rw [collectCells, readPtr h hx, Res.ok_bind] at hrun
    obtain ⟨a, ha, hrun⟩ := Res.bind_eq_ok.mp hrun
    obtain ⟨rest, hrest, -⟩ := Res.bind_eq_ok.mp hrun
    rw [hdrop] at hc
    rcases List.mem_cons.mp hc with rfl | hc
    · exact ⟨a, ha⟩
    · exact collectCells_eq_ok h n (i + 1) (by omega) hrest c hc

/-- Where the cells of a leaf could be listed, each could be encoded again. -/
theorem LeafPage.built_of_cellsWith {d bytes : Bytes} {h start : Nat} {key : Int}
    {cells : List LeafCell} {cs : List (Int × Bytes)} (hp : LeafPage d h start cells)
    (hrun : leafCellsWith d h bytes key = .ok cs) :
    ∀ c ∈ cells, buildTableCell c.key c.record = .ok c.recoded.bytes := by
  rw [leafCellsWith, hp.count, Res.ok_bind] at hrun
  obtain ⟨as, has, -⟩ := Res.bind_eq_ok.mp hrun
  intro c hc
  obtain ⟨a, ha⟩ := collectCells_eq_ok hp.holds.toLists cells.length 0 (Nat.zero_add _) has c
    (by rwa [List.drop_zero])
  obtain ⟨h1, h2⟩ := hp.readCell hc
  change recode d c.ptr = _ at ha
  rw [recode, h1, Res.ok_bind] at ha
  simp only [h2, Res.ok_bind] at ha
  obtain ⟨bs, hbs, -⟩ := Res.bind_eq_ok.mp ha
  rw [LeafCell.recoded, hbs]
  rfl

namespace Btree

/-- What a split did that returned. -/
theorem splitLeafTable_eq_ok {b b' : Btree} {d d' bytes : Bytes} {h left right : Nat} {key : Int}
    {split : LeafSplit}
    (hrun : splitLeafTable d h left right bytes key b = .ok (d', split) b') :
    ∃ cs divider page t dr, leafCellsWith d h bytes key = .ok cs ∧
      cs[cs.length / 2 - 1]? = some divider ∧ split.dividerKey = divider.1 ∧
      rebuildLeafTablePage d h (cs.take (cs.length / 2)) = .ok d' ∧
      Pager.getPage right b.pager = .ok page t ∧
      rebuildLeafTablePage page.data (pageHeaderOffset right) (cs.drop (cs.length / 2)) = .ok dr ∧
      Pager.writePage { page with data := dr } t = .ok () b'.pager := by
  obtain ⟨cs, hcs, h1⟩ := lift_bind_eq_ok.mp hrun
  by_cases hmid : cs.length / 2 = 0
  · rw [if_pos hmid] at h1
    cases h1
  · rw [if_neg hmid] at h1
    cases hdiv : cs[cs.length / 2 - 1]? with
    | none =>
      rw [hdiv] at h1
      cases h1
    | some divider =>
      rw [hdiv] at h1
      obtain ⟨dl, hdl, h2⟩ := lift_bind_eq_ok.mp h1
      obtain ⟨page, t, hget, h3⟩ := zoom_bind_eq_ok h2
      obtain ⟨dr, hdr, h4⟩ := lift_bind_eq_ok.mp h3
      obtain ⟨u, t', hwrite, h5⟩ := zoom_bind_eq_ok h4
      cases h5
      exact ⟨cs, divider, page, t, dr, hcs, hdiv, rfl, hdl, hget, hdr, hwrite⟩

/-- The split leaves two sound leaves with the rows of the old one and the new
row, the divider between them. -/
def SplitsSoundly (b : Btree) (d : Bytes) (l : Leaf) (right : Nat) (bytes : Bytes) (row : Row) :
    Prop :=
  ∃ d' split b' dr lower upper,
    splitLeafTable d (pageHeaderOffset l.pgno) l.pgno right bytes row.1 b = .ok (d', split) b' ∧
    b'.pager.view right = .ok dr ∧ SoundLeaf d' (pageHeaderOffset l.pgno) lower ∧
    SoundLeaf dr (pageHeaderOffset right) upper ∧
    lower.map (·.val) ++ upper.map (·.val) = insertRow row l.rows ∧
    (∀ c ∈ lower, c.key ≤ split.dividerKey) ∧ ∀ c ∈ upper, split.dividerKey < c.key

/-- The keys survive being encoded again, and the halves fit. -/
def SplitFits (l : Leaf) (size : Nat) (bytes : Bytes) (row : Row) : Prop :=
  (∀ key ∈ row.1 :: l.keys, KeyOk key) ∧ l.recoded.HalvesFit size bytes row

instance (l : Leaf) (size : Nat) (bytes : Bytes) (row : Row) : Decidable (SplitFits l size bytes row) :=
  inferInstanceAs (Decidable (_ ∧ _))

section
variable {b : Btree} {d dr bytes : Bytes} {l : Leaf} {right : Nat} {row : Row}

theorem recoded_keys (l : Leaf) : l.recoded.keys = l.keys := by
  rw [Leaf.keys, Leaf.keys, Leaf.recoded, List.map_map]
  rfl

theorem recoded_rows (l : Leaf) : l.recoded.rows = l.rows := by
  rw [Leaf.rows, Leaf.rows, Leaf.recoded, List.map_map]
  rfl

theorem cellsWith_rows (hsort : l.keys.Pairwise (· < ·)) (habs : row.1 ∉ l.keys) (bytes : Bytes) :
    (l.recoded.cellsWith bytes row).map (·.val) = insertRow row l.rows := by
  rw [← recoded_keys] at hsort habs
  rw [← recoded_rows]
  exact sortCells_rows ⟨0, bytes, row⟩ hsort habs

theorem cellsWith_sorted (hsort : l.keys.Pairwise (· < ·)) (habs : row.1 ∉ l.keys) (bytes : Bytes) :
    ((l.recoded.lower bytes row ++ l.recoded.upper bytes row).map (·.key)).Pairwise (· < ·) := by
  rw [← recoded_keys] at hsort habs
  rw [Leaf.lower_append_upper]
  exact sortCells_sorted ⟨0, bytes, row⟩ hsort habs

/-- Cells that stand on a page are encoded again when their keys survive. -/
theorem recoded_ok {start h : Nat} (hp : LeafPage d h start l.cells) (hk : ∀ key ∈ l.keys, KeyOk key) :
    ∀ c ∈ l.cells, buildTableCell c.key c.record = .ok c.recoded.bytes ∧
      TableCell c.recoded.bytes c.key c.record := by
  intro c hc
  have hcell := hp.cell c hc
  have hsmall := hp.holds.small
  obtain ⟨off, n, -, -, -, hend, -⟩ := hcell.read (hp.at hc)
  have hhigh := hp.holds.high _ (List.mem_map_of_mem hc)
  simp only [Cell.slot] at hhigh
  obtain ⟨bs, hbs, htable, -⟩ := buildTableCell_ok c.record (hk _ (List.mem_map_of_mem hc))
    (by omega)
  have heq : c.recoded.bytes = bs := by
    rw [LeafCell.recoded, hbs]
    rfl
  rw [heq]
  exact ⟨hbs, htable⟩

theorem splitsSoundly_of_fits (hs : b.pager.Ready) (hsize : SizeOk b.pager)
    (hp : SoundLeaf d (pageHeaderOffset l.pgno) l.cells) (hlen : d.length = b.pager.pageSize)
    (hne : l.cells ≠ []) (hright : right ≠ ROOT_PAGE) (hvr : b.pager.view right = .ok dr)
    (hdr : Blank dr 0 b.pager.pageSize PAGE_TYPE_LEAF_TABLE)
    (hb : buildTableCell row.1 row.2 = .ok bytes) (hr : row.2.length < 2 ^ 56)
    (habs : row.1 ∉ l.keys) (hfit : SplitFits l b.pager.pageSize bytes row) :
    SplitsSoundly b d l right bytes row := by
  obtain ⟨start, hpage⟩ := hp.page
  obtain ⟨hk, hhalves⟩ := hfit
  have hcell := tableCell_of_build (hk _ List.mem_cons_self) hr hb
  have hr0 : pageHeaderOffset right = 0 := if_neg hright
  obtain ⟨t, d', dr', divider, hdiv, hrun, -, -, -, hlow, hv, -, hupp⟩ := splitLeafTable_spec
    (l := { l with start := start }) hs hsize hpage hlen hcell
    (recoded_ok hpage fun key hkey => hk key (List.mem_cons_of_mem _ hkey)) hne hhalves hvr hr0 hdr
  have hsort := cellsWith_sorted hp.sorted habs bytes
  obtain ⟨hle, hlt⟩ := lower_le_divider hsort hdiv
  rw [List.map_append] at hsort
  obtain ⟨hs1, hs2, -⟩ := List.pairwise_append.mp hsort
  have hkeys : ∀ xs : List LeafCell, (placed b.pager.pageSize xs).map LeafCell.key =
      xs.map (·.key) :=
    placed_map _ fun _ _ => rfl
  have hrows : ∀ xs : List LeafCell, (placed b.pager.pageSize xs).map (·.val) = xs.map (·.val) :=
    placed_map _ fun _ _ => rfl
  refine ⟨d', _, _, dr', _, _, hrun, hv, ⟨⟨_, hlow⟩, by rw [hkeys]; exact hs1⟩,
    ⟨⟨_, by rw [hr0]; exact hupp⟩, by rw [hkeys]; exact hs2⟩, ?_, fun c hc => ?_, fun c hc => ?_⟩
  · rw [hrows, hrows, ← List.map_append, ← cellsWith_rows hp.sorted habs bytes,
      ← Leaf.lower_append_upper]
    rfl
  · obtain ⟨c', hc', heq⟩ := mem_placed hc
    rw [heq]
    exact hle c' hc'
  · obtain ⟨c', hc', heq⟩ := mem_placed hc
    rw [heq]
    exact hlt c' hc'

theorem fits_of_splitsSoundly (hs : b.pager.Ready) (hsize : SizeOk b.pager)
    (hp : SoundLeaf d (pageHeaderOffset l.pgno) l.cells) (hlen : d.length = b.pager.pageSize)
    (hright : right ≠ ROOT_PAGE) (hvr : b.pager.view right = .ok dr)
    (hdr : Blank dr 0 b.pager.pageSize PAGE_TYPE_LEAF_TABLE)
    (hb : buildTableCell row.1 row.2 = .ok bytes) (hkey : -2 ^ 63 ≤ row.1 ∧ row.1 < 2 ^ 63)
    (habs : row.1 ∉ l.keys) (h : SplitsSoundly b d l right bytes row) :
    SplitFits l b.pager.pageSize bytes row := by
  obtain ⟨d', split, b', dr', lower, upper, hrun, hv, ⟨⟨s1, hlow⟩, -⟩, ⟨⟨s2, hupp⟩, -⟩, hrows, -, -⟩ := h
  obtain ⟨start, hpage⟩ := hp.page
  obtain ⟨h512, h32⟩ := hsize
  have hh := pageHeaderOffset_le l.pgno
  have hr0 : pageHeaderOffset right = 0 := if_neg hright
  obtain ⟨cs, divider, page, t, dr'', hcs, -, -, hdl, hget, hdr', hwrite⟩ := splitLeafTable_eq_ok hrun
  -- the cells the two pages were laid out with
  have hbuilt := hpage.built_of_cellsWith hcs
  have hcl := l.recoded.cellsWith_length bytes row
  rw [Leaf.recoded_length] at hcl
  have hcs' : cs = (l.recoded.cellsWith bytes row).map fun c => (LeafCell.key c, c.bytes) :=
    Except.ok.inj (hcs.symm.trans (hpage.cellsWith hbuilt ⟨0, bytes, row⟩))
  rw [hcs', ← List.map_take, List.length_map, hcl] at hdl
  rw [hcs', ← List.map_drop, List.length_map, hcl] at hdr'
  have htake : (l.recoded.cellsWith bytes row).take ((l.cells.length + 1) / 2) =
      l.recoded.lower bytes row := by rw [Leaf.lower, Leaf.recoded_length]
  have hdrop : (l.recoded.cellsWith bytes row).drop ((l.cells.length + 1) / 2) =
      l.recoded.upper bytes row := by rw [Leaf.upper, Leaf.recoded_length]
  rw [htake] at hdl
  rw [hdrop] at hdr'
  -- what is read of the right page is what was laid out
  obtain ⟨page', t', hget', hpg, hdata, ht⟩ := Pager.getPage_ready hs hvr
  cases hget.symm.trans hget'
  obtain ⟨t'', hwrite', -, hv', -, -⟩ := Pager.writePage_ready (ht.ready hs)
    { page with data := dr'' }
  cases hwrite.symm.trans hwrite'
  rw [hpg] at hv'
  obtain rfl : dr' = dr'' := Except.ok.inj (hv.symm.trans hv')
  rw [hdata, hr0] at hdr'
  rw [hr0] at hupp
  have hdlen := hdr.length
  have hroom := hpage.holds.room
  have htop := hpage.holds.top
  simp only [leafLayout, List.length_map] at hroom
  have hnlow : (l.recoded.lower bytes row).length ≤ l.cells.length + 1 := by
    rw [← htake, List.length_take]
    omega
  have hnupp : (l.recoded.upper bytes row).length ≤ l.cells.length + 1 := by
    rw [← hdrop, List.length_drop]
    omega
  obtain ⟨hcount1, hfit1⟩ := rebuildLeaf_fits hdl (by omega) (by omega) hlow
  obtain ⟨hcount2, hfit2⟩ := rebuildLeaf_fits hdr' (by omega) (by omega) hupp
  refine ⟨?_, hlen ▸ hfit1, by rw [Nat.zero_add] at hfit2; omega⟩
  -- the keys of the rows are those of the cells
  rw [← cellsWith_rows hp.sorted habs bytes, ← Leaf.lower_append_upper, List.map_append] at hrows
  obtain ⟨hrows1, hrows2⟩ := List.append_inj hrows (by rw [List.length_map, List.length_map, hcount1])
  have hkeys : ∀ {xs ys : List LeafCell}, xs.map (·.val) = ys.map (·.val) →
      xs.map (·.key) = ys.map (·.key) := fun {xs ys} heq => by
    have hfst := congrArg (List.map Prod.fst) heq
    rw [List.map_map, List.map_map] at hfst
    exact hfst
  have hcell : ∀ c ∈ l.recoded.cellsWith bytes row, (-2 ^ 63 ≤ c.key ∧ c.key < 2 ^ 63) ∧
      buildTableCell c.key c.record = .ok c.bytes := fun c hc => by
    rcases Leaf.mem_cellsWith.mp hc with hc | rfl
    · obtain ⟨x, hx, rfl⟩ := List.mem_map.mp hc
      exact ⟨(hpage.cell x hx).range, hbuilt x hx⟩
    · exact ⟨hkey, hb⟩
  have hok1 := rebuildLeaf_keys hdl (by omega) (by omega) hfit1 hlow (hkeys hrows1)
    fun c hc => hcell c (List.mem_of_mem_take hc)
  have hok2 := rebuildLeaf_keys hdr' (by omega) (by omega) hfit2 hupp (hkeys hrows2)
    fun c hc => hcell c (List.mem_of_mem_drop hc)
  have hok : ∀ c ∈ l.recoded.cellsWith bytes row, KeyOk c.key := fun c hc => by
    rw [← Leaf.lower_append_upper] at hc
    rcases List.mem_append.mp hc with hc | hc
    · exact hok1 c hc
    · exact hok2 c hc
  intro key hk
  rcases List.mem_cons.mp hk with rfl | hk
  · exact hok ⟨0, bytes, row⟩ (Leaf.mem_cellsWith.mpr (.inr rfl))
  · obtain ⟨c, hc, rfl⟩ := List.mem_map.mp hk
    exact hok c.recoded (Leaf.mem_cellsWith.mpr (.inl (List.mem_map_of_mem hc)))

/-- The split is sound exactly when the keys survive being encoded again and the
halves, dealt out by number, fit. -/
theorem splitLeafTable_sound_iff (hs : b.pager.Ready) (hsize : SizeOk b.pager)
    (hp : SoundLeaf d (pageHeaderOffset l.pgno) l.cells) (hlen : d.length = b.pager.pageSize)
    (hne : l.cells ≠ []) (hright : right ≠ ROOT_PAGE) (hvr : b.pager.view right = .ok dr)
    (hdr : Blank dr 0 b.pager.pageSize PAGE_TYPE_LEAF_TABLE)
    (hb : buildTableCell row.1 row.2 = .ok bytes) (hkey : -2 ^ 63 ≤ row.1 ∧ row.1 < 2 ^ 63)
    (hquarter : bytes.length ≤ d.length / 4) (habs : row.1 ∉ l.keys) :
    SplitsSoundly b d l right bytes row ↔ SplitFits l b.pager.pageSize bytes row := by
  have hsmall := hsize.2
  have hr := buildTableCell_length hb
  exact ⟨fits_of_splitsSoundly hs hsize hp hlen hright hvr hdr hb hkey habs,
    splitsSoundly_of_fits hs hsize hp hlen hne hright hvr hdr hb (by omega) habs⟩

end

/-! ### Pages of 512 bytes -/

/-- The cells of rows, as the B-tree builds them. -/
def rowCells (rows : List Row) : List LeafCell :=
  rows.map fun row => ⟨0, image (buildTableCell row.1 row.2), row⟩

/-- A leaf with rows. -/
def rowsPage (rows : List Row) : Bytes :=
  image (rebuildLeafTablePage (blankPage PAGE_TYPE_LEAF_TABLE) 0
    ((rowCells rows).map fun c => (c.key, c.bytes)))

theorem rowsPage_leaf {rows : List Row} (hk : ∀ row ∈ rows, KeyOk row.1 ∧ row.2.length ≤ 512)
    (hfit : 8 + leafSize (rowCells rows) ≤ 512) :
    (rowsPage rows).length = 512 ∧
      LeafPage (rowsPage rows) 0 (512 - total ((rowCells rows).map (·.bytes)))
        (placed 512 (rowCells rows)) := by
  obtain ⟨d, hrun, hlen, hpage⟩ := leafPage_rebuild (d := blankPage PAGE_TYPE_LEAF_TABLE) (h := 0)
    (rowCells rows) (by simp) (by simp) rfl (fun c hc => by
      obtain ⟨row, hrow, rfl⟩ := List.mem_map.mp hc
      obtain ⟨hkey, hr⟩ := hk row hrow
      obtain ⟨bytes, hb, hcell, -⟩ := buildTableCell_ok row.2 hkey (by omega)
      rw [image, hb]
      exact hcell) (by rw [blankPage_length]; exact hfit)
  rw [blankPage_length] at hlen hpage
  have himg : rowsPage rows = d := by rw [rowsPage, hrun]; rfl
  rw [himg]
  exact ⟨hlen, hpage⟩

theorem rowsPage_sound {rows : List Row} (hk : ∀ row ∈ rows, KeyOk row.1 ∧ row.2.length ≤ 512)
    (hsort : (rows.map (·.1)).Pairwise (· < ·)) (hfit : 8 + leafSize (rowCells rows) ≤ 512) :
    SoundLeaf (rowsPage rows) 0 (placed 512 (rowCells rows)) := by
  refine ⟨⟨_, (rowsPage_leaf hk hfit).2⟩, ?_⟩
  have hkeys : (placed 512 (rowCells rows)).map LeafCell.key = rows.map (·.1) := by
    rw [placed_map 512 (fun _ _ => rfl), rowCells, List.map_map]
    rfl
  rw [hkeys]
  exact hsort

theorem tryInsertLeafCell_sound_two :
    ∃ r, tryInsertLeafCell (rowsPage [(1, [0]), (3, [0])]) 0 (image (buildTableCell 2 [7])) 2 = .ok r ∧
      (r = none → pageAfter (rowsPage [(1, [0]), (3, [0])]) r = rowsPage [(1, [0]), (3, [0])]) ∧
      (r ≠ none → (pageAfter (rowsPage [(1, [0]), (3, [0])]) r).length =
          (rowsPage [(1, [0]), (3, [0])]).length ∧
        ∃ cells', SoundLeaf (pageAfter (rowsPage [(1, [0]), (3, [0])]) r) 0 cells' ∧
          cells'.map (·.val) =
            insertRow (2, [7]) ((placed 512 (rowCells [(1, [0]), (3, [0])])).map (·.val)) ∧
          ∀ c ∈ placed 512 (rowCells [(1, [0]), (3, [0])]), c ∈ cells') :=
  have hk : ∀ row ∈ [((1 : Int), [(0 : UInt8)]), (3, [0])], KeyOk row.1 ∧ row.2.length ≤ 512 := by
    decide
  tryInsertLeafCell_sound (rowsPage_sound hk (by decide) (by decide +kernel))
    (by rw [(rowsPage_leaf hk (by decide +kernel)).1]; decide) (by decide) rfl (by decide +kernel)

/-- A new leaf page. -/
def newPage (pageType : UInt8) : Bytes :=
  pageType :: ([0, 0, 0, 0] ++ (be16 512 ++ List.replicate 505 0))

theorem newPage_blank (pageType : UInt8) : Blank (newPage pageType) 0 512 pageType where
  length := by
    rw [newPage, List.length_cons, List.length_append, List.length_append, be16_length,
      List.length_replicate]
    rfl
  type := rfl
  count := fun i hi => by
    rw [be16_length] at hi
    rcases (by omega : i = 0 ∨ i = 1) with rfl | rfl <;> rfl
  content := fun i hi => by
    rw [be16_length] at hi
    rcases (by omega : i = 0 ∨ i = 1) with rfl | rfl <;> rfl

/-- A new page 3 behind the leaf that is split. -/
def besideNew : Btree where
  pager := { newDatabase with
    cache := AList.singleton 3 { data := newPage PAGE_TYPE_LEAF_TABLE, dirty := true }, pageCount := 3 }
  rootPage := 2
  flags := tableFlags

/-- Three small rows and three large ones. -/
def lopsided : List Row :=
  [(1, [0]), (2, [0]), (3, [0]), (4, List.replicate 150 0), (5, List.replicate 150 0),
    (6, List.replicate 150 0)]

/-- A row of less than a quarter of the page. -/
def seventh : Row := (7, List.replicate 120 0)

def lopsidedLeaf : Leaf := ⟨2, 512, placed 512 (rowCells lopsided)⟩

theorem lopsided_sound : SoundLeaf (rowsPage lopsided) 0 lopsidedLeaf.cells :=
  rowsPage_sound (by decide +kernel) (by decide) (by decide +kernel)

theorem besideNew_ready : besideNew.pager.Ready := ⟨fun h => (by cases h), rfl, rfl⟩

theorem besideNew_view : besideNew.pager.view 3 = .ok (newPage PAGE_TYPE_LEAF_TABLE) :=
  Pager.view_cached (s := besideNew.pager) (f := ⟨newPage PAGE_TYPE_LEAF_TABLE, true⟩)
    rfl

theorem splitLeafTable_sound_iff_lopsided :
    SplitsSoundly besideNew (rowsPage lopsided) lopsidedLeaf 3
        (image (buildTableCell seventh.1 seventh.2)) seventh ↔
      SplitFits lopsidedLeaf 512 (image (buildTableCell seventh.1 seventh.2)) seventh :=
  splitLeafTable_sound_iff besideNew_ready newDatabase_size lopsided_sound
    (rowsPage_leaf (by decide +kernel) (by decide +kernel)).1 (List.cons_ne_nil _ _) (by decide)
    besideNew_view (newPage_blank _) (by decide +kernel) (by decide) (by decide +kernel)
    (by decide +kernel)

/-- The three large rows and the new one go to one page, which has no room for
them. -/
theorem splitLeafTable_overflows : besideNew.pager.Ready ∧ SizeOk besideNew.pager ∧
    SoundLeaf (rowsPage lopsided) 0 lopsidedLeaf.cells ∧
    besideNew.pager.view 3 = .ok (newPage PAGE_TYPE_LEAF_TABLE) ∧
    (image (buildTableCell seventh.1 seventh.2)).length ≤ 512 / 4 ∧
    tryInsertLeafCell (rowsPage lopsided) 0 (image (buildTableCell seventh.1 seventh.2)) seventh.1 =
      .ok none ∧
    ¬ SplitsSoundly besideNew (rowsPage lopsided) lopsidedLeaf 3
      (image (buildTableCell seventh.1 seventh.2)) seventh := by
  refine ⟨besideNew_ready, newDatabase_size, lopsided_sound, besideNew_view, by decide +kernel,
    by decide +kernel, fun h => ?_⟩
  obtain ⟨d', split, b', dr, lower, upper, hrun, -⟩ := h
  have hnone : (outcome (splitLeafTable (rowsPage lopsided) (pageHeaderOffset lopsidedLeaf.pgno)
      lopsidedLeaf.pgno 3 (image (buildTableCell seventh.1 seventh.2)) seventh.1)
      besideNew).toOption.isSome = false := by
    decide +kernel
  rw [outcome_ok hrun] at hnone
  cases hnone

-- A short row still finds room beside the three large ones.
example : (tryInsertLeafCell (rowsPage lopsided) 0 (image (buildTableCell 7 [0])) 7).toOption.join.isSome := by
  decide +kernel

end Btree

end Sqllite
