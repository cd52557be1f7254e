import Sqllite.Lib.Router
import Sqllite.L2Storage.LeafSplit

/-!
# An interior page that takes a divider, and one that is split

The interior pages of a table and of an index differ in their keys only. A page is a
branch (`Lib.Router`) of page numbers; a child that was split into two takes a
divider there, and a page without room for it is split itself.

* `Btree.insertDivider_routes_iff`: the halves of a child get the keys they hold
  exactly when the child is the rightmost.
* `Btree.splitInterior_never`: the halves of an interior page never have the children
  it had, the old rightmost child is in both.
-/
namespace Sqllite
open Lib Lib.Run Lib.Span Lib.Slotted Lib.Router

/-! ## Tables and indexes -/

/-- The bytes of an interior index cell: child page, length, key. -/
structure InteriorIndexCell (bytes : Bytes) (child : Nat) (key : Bytes) : Prop where
  split : ∃ lb, bytes = be32 child ++ (lb ++ key) ∧ IsVarint lb key.length ∧ child < 2 ^ 32

theorem InteriorIndexCell.read {bytes key : Bytes} {child : Nat}
    (h : InteriorIndexCell bytes child key) {d : Bytes} {ptr : Nat} (hat : At d ptr bytes) :
    readInteriorIndexCell d ptr = .ok (child, key) ∧
      ∃ v n, readVarint d (ptr + 4) = .ok (v, n) ∧ 4 + n + v = bytes.length := by
  obtain ⟨lb, rfl, hl, hc⟩ := h.split
  have hle := hat.le (by simp [be32])
  obtain ⟨h1, h2⟩ := At.append.mp hat
  obtain ⟨h2, h3⟩ := At.append.mp h2
  rw [be32_length] at h2 h3
  simp only [List.length_append, be32_length] at hle
  refine ⟨?_, key.length, lb.length, hl.read h2, by simp; omega⟩
  rw [readInteriorIndexCell, readU32Be_at h1 hc, Res.ok_bind, hl.read h2]
  simp only [Res.ok_bind]
  rw [slice_at h3 (by omega) rfl]
  rfl

/-- What the interior pages of tables and of indexes differ in. -/
structure BranchKind (κ : Type) where
  pageType : UInt8
  IsCell : Bytes → Nat → κ → Prop
  build : Nat → κ → Result Bytes
  find : Bytes → Nat → κ → Result (Nat × Nat)
  divider : LeafSplit → Option κ
  insert : Nat → LeafSplit → BtreeM (Option LeafSplit)
  InDomain : κ → Prop

/-- Keys are `i64`. -/
def tableKind : BranchKind Int where
  pageType := PAGE_TYPE_INTERIOR_TABLE
  IsCell := InteriorTableCell
  build := buildInteriorTableCell
  find := findChildPageTable
  divider := fun split => some split.dividerKey
  insert := Btree.insertIntoInteriorTable
  InDomain := fun key => -2 ^ 63 ≤ key ∧ key < 2 ^ 63

/-- Keys are byte strings, of less than 2^63 bytes as every `Vec`. -/
def indexKind : BranchKind Bytes where
  pageType := PAGE_TYPE_INTERIOR_INDEX
  IsCell := InteriorIndexCell
  build := buildInteriorIndexCell
  find := findChildPageIndex
  divider := fun split => split.dividerBlob
  insert := Btree.insertIntoInteriorIndex
  InDomain := fun key => key.length < 2 ^ 63

section
variable {κ : Type}

/-- The children of a page and the keys between them. -/
def branchOf (cells : List (Cell (Nat × κ))) (right : Nat) : Branch κ Nat :=
  ⟨cells.map (·.val), right⟩

/-- An interior page with room for more cells below `start`. -/
structure BranchPage (t : BranchKind κ) (d : Bytes) (h start : Nat) (cells : List (Cell (Nat × κ)))
    (right : Nat) : Prop where
  type : d[h]? = some t.pageType
  holds : Holds (interiorLayout h) d start (cells.map (·.slot))
  cell : ∀ c ∈ cells, t.IsCell c.bytes c.val.1 c.val.2
  rightmost : At d (h + 8) (be32 right)
  right_lt : right < 2 ^ 32

variable {t : BranchKind κ} {d : Bytes} {h start right : Nat} {cells : List (Cell (Nat × κ))}

theorem BranchPage.readRight (hp : BranchPage t d h start cells right) :
    readU32Be d (h + 8) = .ok right := readU32Be_at hp.rightmost hp.right_lt

theorem BranchPage.at (hp : BranchPage t d h start cells right) {c : Cell (Nat × κ)}
    (hc : c ∈ cells) : At d c.ptr c.bytes := hp.holds.cell _ (List.mem_map_of_mem hc)

/-- The cells of a page are shorter than a page. -/
theorem BranchPage.cell_lt (hp : BranchPage t d h start cells right) : ∀ c ∈ cells.map (·.bytes), c.length < 65536 := by
  intro bytes hb
  obtain ⟨c, hc, rfl⟩ := List.mem_map.mp hb
  have hlow := hp.holds.low _ (List.mem_map_of_mem hc)
  have hhigh := hp.holds.high _ (List.mem_map_of_mem hc)
  have hroom := hp.holds.room
  have hsmall := hp.holds.small
  simp only [Cell.slot, interiorLayout] at hlow hhigh hroom
  omega

/-! ## Looking for a key -/

variable [LT κ] [DecidableLT κ]

theorem firstSome_route (k : κ) : ∀ (i : Nat) (cells : List (Cell (Nat × κ))),
    (firstSome (fun i c => if c.val.2 < k then none else some (c.val.1, i)) i cells).map (·.1) =
      ((cells.map (·.val)).find? fun e => ¬ e.2 < k).map (·.1)
  | _, [] => rfl
  | i, c :: cells => by
    rw [firstSome, List.map_cons, List.find?_cons]
    by_cases hk : c.val.2 < k
    · simp only [hk, if_true, not_true, decide_false]
      exact firstSome_route k (i + 1) cells
    · simp only [hk, if_false, not_false_eq_true, decide_true, Option.map_some]

/-- The search of the two kinds, over the reader of their cells. -/
theorem findChild_route (hl : Lists (interiorLayout h) d (cells.map (·.slot)))
    (hright : readU32Be d (h + 8) = .ok right) {k : κ} {f : Nat → Nat → Result (Option (Nat × Nat))}
    (hf : ∀ i, ∀ c ∈ cells, f i c.ptr = .ok (if c.val.2 < k then none else some (c.val.1, i))) :
    ∃ slot, (do
      let cellCount ← readU16Be d (h + 3)
      let found ← findCell (interiorLayout h) d f cellCount 0
      match found with
      | some c => pure c
      | none => do
        let child ← readU32Be d (h + 8)
        pure (child, cellCount)) = Except.ok ((branchOf cells right).route k, slot) := by
  have hfind := findCell_spec hl hf cells.length 0 (Nat.zero_add _)
  rw [List.drop_zero] at hfind
  have hroute := firstSome_route k 0 cells
  rw [branchOf, Branch.route, ← hroute]
  rw [show readU16Be d (h + 3) = .ok cells.length from readCount hl, Res.ok_bind, hfind, Res.ok_bind]
  cases firstSome (fun i c => if c.val.2 < k then none else some (c.val.1, i)) 0 cells with
  | some c => exact ⟨c.2, rfl⟩
  | none =>
    refine ⟨cells.length, ?_⟩
    simp only [hright, Res.ok_bind]
    rfl

end

theorem BranchPage.find_table {d : Bytes} {h start right : Nat} {cells : List InteriorCell}
    (hp : BranchPage tableKind d h start cells right) (k : Int) :
    ∃ slot, findChildPageTable d h k = .ok ((branchOf cells right).route k, slot) :=
  findChild_route hp.holds.toLists hp.readRight fun i c hc => by
    rw [((hp.cell c hc).read (hp.at hc)).1, Res.ok_bind]
    simp only [← Int.not_lt, ite_not]
    rfl

theorem BranchPage.find_index {d : Bytes} {h start right : Nat} {cells : List (Cell (Nat × Bytes))}
    (hp : BranchPage indexKind d h start cells right) (k : Bytes) :
    ∃ slot, findChildPageIndex d h k = .ok ((branchOf cells right).route k, slot) :=
  findChild_route hp.holds.toLists hp.readRight fun i c hc => by
    rw [((hp.cell c hc).read (hp.at hc)).1, Res.ok_bind]
    rfl

/-! ## A divider taken -/

section
variable {κ : Type} {t : BranchKind κ} {d : Bytes} {h start right : Nat} {cells : List (Cell (Nat × κ))}

theorem relinkRightmost_spec (hp : BranchPage t d h start cells right) {split : LeafSplit}
    (hnew : split.rightPgno < 2 ^ 32) :
    ∃ d1, Btree.relinkRightmost d h split = .ok d1 ∧ d1.length = d.length ∧
      BranchPage t d1 h start cells (if right = split.leftPgno then split.rightPgno else right) := by
  rw [Btree.relinkRightmost, hp.readRight, Res.ok_bind]
  by_cases heq : right = split.leftPgno
  · have hle := hp.rightmost.le (by simp [be32])
    rw [be32_length] at hle
    obtain ⟨d1, hrun, hat, hout⟩ := copyInto_outside d (h + 8) (be32 split.rightPgno)
      (by rw [be32_length]; omega)
    rw [be32_length] at hout
    rw [if_pos heq, if_pos heq]
    refine ⟨d1, hrun, hout.1, ⟨?_, ?_, hp.cell, hat, hnew⟩⟩
    · rw [hout.2 h (by omega)]
      exact hp.type
    · exact hp.holds.outside hout (by simp [interiorLayout]) (by simp [interiorLayout])
  · rw [if_neg heq, if_neg heq]
    exact ⟨d, rfl, rfl, hp⟩

variable [LT κ] [DecidableLT κ]

theorem BranchPage.insert {before : Nat → Result Bool} {key key' : κ} {cell : Bytes} {i child : Nat}
    (hp : BranchPage t d h start cells right) (hlt : start < 65536)
    (hbefore : ∀ c ∈ cells, before c.ptr = .ok (decide (¬ c.val.2 < key)))
    (hcell : t.IsCell cell child key') (hi : i ≤ cells.length) (hcov : (branchOf cells right).Covers i key)
    (hroom : h + 12 + (cells.length + 1) * 2 + 1 ≤ start - cell.length) :
    ∃ d', tryInsertCell (interiorLayout h) before d cell = .ok (some d') ∧
      BranchPage t d' h (start - cell.length)
        (cells.insertIdx i ⟨start - cell.length, cell, (child, key')⟩) right := by
  obtain ⟨d', hrun, hholds, hkeep⟩ := tryInsertCell_spec (p := fun c => decide (¬ c.val.2 < key))
    hp.holds hlt hbefore (by simp only [interiorLayout, Layout.ptr]; omega)
  have hidx : cells.findIdx (fun c => decide (¬ c.val.2 < key)) = i := by
    have := hcov.findIdx (by rwa [branchOf, List.length_map])
    rwa [branchOf, List.findIdx_map] at this
  rw [hidx] at hholds
  refine ⟨d', hrun, ⟨?_, ?_, fun c hc => ?_, ?_, hp.right_lt⟩⟩
  · have := hkeep.2 h [t.pageType] (.inl (by simp [interiorLayout])) (At.singleton.mpr hp.type)
    exact At.singleton.mp this
  · rwa [List.map_insertIdx]
  · rcases (List.mem_insertIdx hi).mp hc with rfl | hc
    · exact hcell
    · exact hp.cell c hc
  · exact hkeep.2 (h + 8) _ (.inr ⟨by simp [interiorLayout], by simp [interiorLayout]⟩) hp.rightmost

/-- A child of an interior page was split at `key`, and the page has room for one more
cell. -/
structure SplitsChild (t : BranchKind κ) (b : Btree) (pgno i : Nat) (split : LeafSplit) (key : κ)
    (d : Bytes) (start : Nat) (cells : List (Cell (Nat × κ))) (right : Nat) : Prop where
  ready : b.pager.Ready
  view : b.pager.view pgno = .ok d
  page : BranchPage t d (pageHeaderOffset pgno) start cells right
  child : (branchOf cells right).children[i]? = some split.leftPgno
  fresh : split.rightPgno ≠ split.leftPgno
  right_lt : split.rightPgno < 2 ^ 32
  divider : t.divider split = some key
  domain : t.InDomain key
  covers : (branchOf cells right).Covers i key
  below : ∀ c, cells[i]? = some c → key < c.val.2
  start_lt : start < 65536
  room : ∀ cell, t.build split.leftPgno key = .ok cell →
    pageHeaderOffset pgno + 12 + (cells.length + 1) * 2 + 1 ≤ start - cell.length

/-- The page takes the divider; the keys of child `i` go to the halves and the others
where they went. -/
def Reroutes (t : BranchKind κ) (b : Btree) (pgno i : Nat) (split : LeafSplit) (key : κ)
    (cells : List (Cell (Nat × κ))) (right : Nat) : Prop :=
  ∃ b' d', t.insert pgno split b = .ok none b' ∧ b'.pager.view pgno = .ok d' ∧
    (branchOf cells right).Reroutes i split.leftPgno split.rightPgno key fun k c =>
      t.InDomain k → ∃ slot, t.find d' (pageHeaderOffset pgno) k = .ok (c, slot)

/-- Both kinds go this way, unless the page has no room. -/
def insertSteps (t : BranchKind κ) (before : Bytes → κ → Nat → Result Bool)
    (rest : Page → Bytes → Bytes → BtreeM (Option LeafSplit)) (pgno : Nat) (split : LeafSplit)
    (key : κ) : BtreeM (Option LeafSplit) := do
  let page ← Btree.onPager (Pager.getPage pgno)
  let h := pageHeaderOffset pgno
  let data ← lift (Btree.relinkRightmost page.data h split)
  let cell ← lift (t.build split.leftPgno key)
  match ← lift (tryInsertCell (interiorLayout h) (before data key) data cell) with
  | some data => do
    Btree.onPager (Pager.writePage { page with data := data })
    pure none
  | none => rest page data cell

variable {b b' : Btree} {before : Bytes → κ → Nat → Result Bool}
  {rest : Page → Bytes → Bytes → BtreeM (Option LeafSplit)} {pgno i : Nat} {split : LeafSplit}
  {key key' : κ}

omit [LT κ] [DecidableLT κ] in
theorem insertSteps_built {r : Option LeafSplit}
    (hrun : insertSteps t before rest pgno split key b = .ok r b') :
    ∃ cell, t.build split.leftPgno key = .ok cell := by
  obtain ⟨page, s1, -, h1⟩ := zoom_bind_eq_ok hrun
  obtain ⟨d1, -, h2⟩ := lift_bind_eq_ok.mp h1
  obtain ⟨cell, hcell, -⟩ := lift_bind_eq_ok.mp h2
  exact ⟨cell, hcell⟩

variable (rest) in
theorem SplitsChild.insert (hs : SplitsChild t b pgno i split key d start cells right)
    (hbefore : ∀ {d h start cells right}, BranchPage t d h start cells right → ∀ c ∈ cells,
      before d key c.ptr = .ok (decide (¬ c.val.2 < key))) {cell : Bytes}
    (hb : t.build split.leftPgno key = .ok cell) (hcell : t.IsCell cell split.leftPgno key') :
    ∃ t' d', insertSteps t before rest pgno split key b = .ok none { b with pager := t' } ∧
      t'.view pgno = .ok d' ∧ BranchPage t d' (pageHeaderOffset pgno) (start - cell.length)
        (cells.insertIdx i ⟨start - cell.length, cell, (split.leftPgno, key')⟩)
        (if right = split.leftPgno then split.rightPgno else right) := by
  have hi : i ≤ cells.length := by
    have := (List.getElem?_eq_some_iff.mp hs.child).1
    simp only [branchOf, Branch.children, List.length_append, List.length_map,
      List.length_singleton] at this
    omega
  obtain ⟨page, t1, hget, hpg, rfl, hr1⟩ := Pager.getPage_ready hs.ready hs.view
  obtain ⟨d1, hrelink, -, hp1⟩ := relinkRightmost_spec hs.page hs.right_lt
  obtain ⟨d', htry, hp'⟩ := hp1.insert hs.start_lt (hbefore hp1) hcell hi hs.covers (hs.room cell hb)
  obtain ⟨t2, hwrite, -, hv2, -⟩ := Pager.writePage_ready (hr1.ready hs.ready) { page with data := d' }
  rw [hpg] at hv2
  have hg : Btree.onPager (Pager.getPage pgno) b = .ok page { b with pager := t1 } := zoom_ok hget
  have hw : Btree.onPager (Pager.writePage { page with data := d' }) { b with pager := t1 } =
      .ok () { b with pager := t2 } := zoom_ok hwrite
  refine ⟨t2, d', ?_, hv2, hp'⟩
  rw [insertSteps, bind_ok hg, hrelink, bind_ok (lift_ok _ _), hb, bind_ok (lift_ok _ _), htry,
    bind_ok (lift_ok _ _)]
  exact bind_ok hw _

theorem SplitsChild.reroutes_iff [Std.Irrefl (α := κ) (· < ·)] [IsTrans κ (· < ·)]
    (hs : SplitsChild t b pgno i split key d start cells right)
    (hsteps : t.insert pgno split = insertSteps t before rest pgno split key)
    (hbefore : ∀ {d h start cells right}, BranchPage t d h start cells right → ∀ c ∈ cells,
      before d key c.ptr = .ok (decide (¬ c.val.2 < key)))
    (hfind : ∀ {d h start cells right}, BranchPage t d h start cells right → ∀ k,
      ∃ slot, t.find d h k = .ok ((branchOf cells right).route k, slot))
    (hdom : ∀ c ∈ cells, t.InDomain c.val.2) {cell : Bytes}
    (hb : t.build split.leftPgno key = .ok cell) (hcell : t.IsCell cell split.leftPgno key')
    (hd' : t.InDomain key') (htri : key' = key ∨ key < key' ∨ key' < key) :
    Reroutes t b pgno i split key cells right ↔ i = cells.length ∧ key' = key := by
  obtain ⟨t', d', hrun, hv, hp'⟩ := hs.insert rest hbefore hb hcell
  have hbranch := Branch.reroutes_iff (D := t.InDomain) hs.child hs.fresh hs.covers
    (fun e he => by
      rw [branchOf, List.getElem?_map] at he
      obtain ⟨c, hc, rfl⟩ := Option.map_eq_some_iff.mp he
      exact hs.below c hc)
    (fun e he => by
      obtain ⟨c, hc, rfl⟩ := List.mem_map.mp he
      exact hdom c hc) hs.domain hd' htri
  rw [show (branchOf cells right).entries.length = cells.length from List.length_map _] at hbranch
  rw [← hbranch]
  -- what the page says is where its branch leads
  have hroute : ∀ k, ∃ slot, t.find d' (pageHeaderOffset pgno) k =
      .ok (Branch.route ⟨(branchOf cells right).entries.insertIdx i (split.leftPgno, key'),
        if right = split.leftPgno then split.rightPgno else right⟩ k, slot) := fun k => by
    obtain ⟨slot, hslot⟩ := hfind hp' k
    rw [branchOf, List.map_insertIdx] at hslot
    exact ⟨slot, hslot⟩
  constructor
  · intro h
    obtain ⟨b1, d1, hrun1, hv1, hre⟩ := h
    rw [hsteps] at hrun1
    cases hrun.symm.trans hrun1
    cases hv.symm.trans hv1
    refine hre.mono fun k c hgo hk => ?_
    obtain ⟨slot, hslot⟩ := hgo hk
    obtain ⟨slot', hslot'⟩ := hroute k
    exact congrArg Prod.fst (Except.ok.inj (hslot'.symm.trans hslot))
  · intro h
    refine ⟨{ b with pager := t' }, d', by rw [hsteps]; exact hrun, hv, h.mono fun k c hgo hk => ?_⟩
    rw [← hgo hk]
    exact hroute k

end

/-! ## The two kinds -/

theorem BranchPage.before_table {d : Bytes} {h start right : Nat} {cells : List InteriorCell}
    (hp : BranchPage tableKind d h start cells right) (key : Int) :
    ∀ c ∈ cells, beforeInteriorCell d key c.ptr = .ok (decide (¬ c.val.2 < key)) := by
  intro c hc
  rw [beforeInteriorCell, ((hp.cell c hc).read (hp.at hc)).1, Res.ok_bind]
  simp only [Int.not_lt]
  rfl

/-- Whether an index divider goes in front of the cell at `ptr`. -/
def beforeIndexCell (data divider : Bytes) (ptr : Nat) : Result Bool := do
  let (_, cellKey) ← readInteriorIndexCell data ptr
  pure (¬ cellKey < divider)

theorem BranchPage.before_index {d : Bytes} {h start right : Nat} {cells : List (Cell (Nat × Bytes))}
    (hp : BranchPage indexKind d h start cells right) (key : Bytes) :
    ∀ c ∈ cells, beforeIndexCell d key c.ptr = .ok (decide (¬ c.val.2 < key)) := by
  intro c hc
  rw [beforeIndexCell, ((hp.cell c hc).read (hp.at hc)).1, Res.ok_bind]
  rfl

namespace Btree

theorem insertIntoInteriorTable_steps (pgno : Nat) (split : LeafSplit) : ∃ rest,
    insertIntoInteriorTable pgno split =
      insertSteps tableKind beforeInteriorCell rest pgno split split.dividerKey := ⟨_, rfl⟩

theorem insertIntoInteriorIndex_steps (pgno : Nat) {split : LeafSplit} {divider : Bytes}
    (h : split.dividerBlob = some divider) : ∃ rest,
    insertIntoInteriorIndex pgno split =
      insertSteps indexKind beforeIndexCell rest pgno split divider := by
  obtain ⟨left, key, blob, right⟩ := split
  cases h
  exact ⟨_, rfl⟩

section
variable {b : Btree} {pgno i start right : Nat} {split : LeafSplit} {d : Bytes}

theorem child_lt {κ : Type} {t : BranchKind κ} {key : κ} {cells : List (Cell (Nat × κ))}
    [LT κ] [DecidableLT κ] (hs : SplitsChild t b pgno i split key d start cells right)
    (hcell : ∀ c ∈ cells, c.val.1 < 2 ^ 32) : split.leftPgno < 2 ^ 32 := by
  have hmem := List.mem_of_getElem? hs.child
  rw [Branch.children, List.mem_append, List.mem_singleton] at hmem
  rcases hmem with hmem | hright
  · simp only [branchOf, List.map_map] at hmem
    obtain ⟨c, hc, hval⟩ := List.mem_map.mp hmem
    rw [← hval]
    exact hcell c hc
  · rw [hright]
    exact hs.page.right_lt

theorem insertTable_reroutes_iff {key : Int} {cells : List InteriorCell}
    (hs : SplitsChild tableKind b pgno i split key d start cells right) :
    Reroutes tableKind b pgno i split key cells right ↔ i = cells.length ∧ KeyOk key := by
  have hkey : split.dividerKey = key := Option.some.inj hs.divider
  obtain ⟨rest, hsteps⟩ := insertIntoInteriorTable_steps pgno split
  rw [hkey] at hsteps
  obtain ⟨hlow, hhigh⟩ := hs.domain
  have hchild := child_lt hs fun c hc => by
    obtain ⟨_, _, -, -, -, hlt⟩ := (hs.page.cell c hc).split
    exact hlt
  cases hw : writeVarint (asU64 key) with
  | error e =>
    constructor
    · intro h
      obtain ⟨b', d', hrun, -⟩ := h
      change insertIntoInteriorTable pgno split b = _ at hrun
      rw [hsteps] at hrun
      obtain ⟨cell, hcell⟩ := insertSteps_built hrun
      change buildInteriorTableCell _ _ = _ at hcell
      rw [buildInteriorTableCell, hw] at hcell
      cases hcell
    · intro h
      obtain ⟨kb, hkb, -⟩ := writeVarint_ok (v := asU64 key) (by
        have := h.2.1
        have := h.2.2
        rw [asU64_of_nonneg h.2.1 (by omega)]
        omega)
      rw [hw] at hkb
      cases hkb
  | ok kb =>
    obtain ⟨u, hu, hiff⟩ := rowid_isVarint hlow hhigh hw
    have hlt := hu.lt
    have hb : tableKind.build split.leftPgno key = .ok (be32 split.leftPgno ++ kb) := by
      change buildInteriorTableCell _ _ = _
      rw [buildInteriorTableCell, hw]
      rfl
    rw [hs.reroutes_iff hsteps (fun hp => hp.before_table key) (fun hp => hp.find_table) (fun c hc => by
      obtain ⟨_, u, -, hv, hasu, -⟩ := (hs.page.cell c hc).split
      have := hv.lt
      rw [show c.val.2 = _ from hasu.symm]
      change -2 ^ 63 ≤ _ ∧ _ < 2 ^ 63
      unfold asI64
      split <;> omega) hb (show tableKind.IsCell _ _ (asI64 u) from ⟨kb, u, rfl, hu, rfl, hchild⟩) (by
      change -2 ^ 63 ≤ _ ∧ _ < 2 ^ 63
      unfold asI64
      split <;> omega) (by omega), hiff]

theorem insertIndex_reroutes_iff {key : Bytes} {cells : List (Cell (Nat × Bytes))}
    (hs : SplitsChild indexKind b pgno i split key d start cells right) :
    Reroutes indexKind b pgno i split key cells right ↔ i = cells.length := by
  obtain ⟨rest, hsteps⟩ := insertIntoInteriorIndex_steps pgno hs.divider
  have hchild := child_lt hs fun c hc => by
    obtain ⟨_, -, -, hlt⟩ := (hs.page.cell c hc).split
    exact hlt
  have hdomain : key.length < 2 ^ 63 := hs.domain
  obtain ⟨lb, hw, -⟩ := writeVarint_total hdomain
  have hb : indexKind.build split.leftPgno key = .ok (be32 split.leftPgno ++ (lb ++ key)) := by
    change buildInteriorIndexCell _ _ = _
    rw [buildInteriorIndexCell, hw]
    rfl
  have hroom := hs.room _ hb
  have hstart := hs.start_lt
  simp only [List.length_append, be32_length] at hroom
  have hsmall := hs.page.holds.small
  rw [hs.reroutes_iff hsteps (fun hp => hp.before_index key) (fun hp => hp.find_index) (fun c hc => by
    obtain ⟨lb, hbytes, -⟩ := (hs.page.cell c hc).split
    have hhigh := hs.page.holds.high _ (List.mem_map_of_mem hc)
    simp only [Cell.slot, hbytes, List.length_append] at hhigh
    change c.val.2.length < 2 ^ 63
    omega) hb
    (show indexKind.IsCell _ _ key from ⟨lb, rfl, isVarint_writeVarint (by omega) hw, hchild⟩) hdomain (.inl rfl)]
  simp

/-- The halves of a child get the keys they hold exactly when it is the rightmost
child, and in a table the divider survives its encoding besides. -/
theorem insertDivider_routes_iff (b : Btree) (pgno i : Nat) (split : LeafSplit) (d : Bytes)
    (start right : Nat) :
    (∀ key cells, SplitsChild tableKind b pgno i split key d start cells right →
      (Reroutes tableKind b pgno i split key cells right ↔ i = cells.length ∧ KeyOk key)) ∧
    ∀ key cells, SplitsChild indexKind b pgno i split key d start cells right →
      (Reroutes indexKind b pgno i split key cells right ↔ i = cells.length) :=
  ⟨fun _ _ hs => insertTable_reroutes_iff hs, fun _ _ hs => insertIndex_reroutes_iff hs⟩

end

/-! ## A page split -/

section
variable {b b' : Btree} {d d' bytes : Bytes} {h left right : Nat} {split : LeafSplit} {cs : List Bytes}

/-- What the rebuild of both halves left that returned. -/
theorem rebuildInteriorHalves_eq_ok (hrun : rebuildInteriorHalves d h right cs b = .ok d' b') :
    ∃ last last' page t dr, rebuildInteriorTablePage d h (cs.take (cs.length / 2)) last = .ok d' ∧
      Pager.getPage right b.pager = .ok page t ∧
      rebuildInteriorTablePage page.data (pageHeaderOffset right) (cs.drop (cs.length / 2)) last' =
        .ok dr ∧ Pager.writePage { page with data := dr } t = .ok () b'.pager := by
  obtain ⟨last, -, h1⟩ := lift_bind_eq_ok.mp hrun
  obtain ⟨d1, hleft, h2⟩ := lift_bind_eq_ok.mp h1
  obtain ⟨page, t, hget, h3⟩ := zoom_bind_eq_ok h2
  obtain ⟨last', -, h4⟩ := lift_bind_eq_ok.mp h3
  obtain ⟨dr, hright, h5⟩ := lift_bind_eq_ok.mp h4
  obtain ⟨u, t', hwrite, h6⟩ := zoom_bind_eq_ok h5
  cases h6
  exact ⟨last, last', page, t, dr, hleft, hget, hright, hwrite⟩

theorem splitInteriorTable_eq_ok
    (hrun : splitInteriorTable d h left right bytes b = .ok (d', split) b') :
    ∃ cs, interiorCellsWith d h bytes = .ok cs ∧ cs.length / 2 ≠ 0 ∧
      rebuildInteriorHalves d h right cs b = .ok d' b' := by
  obtain ⟨cs, hcs, h1⟩ := lift_bind_eq_ok.mp hrun
  by_cases hmid : cs.length / 2 = 0
  · rw [if_pos hmid] at h1
    cases h1
  · rw [if_neg hmid] at h1
    cases hdiv : cs[cs.length / 2 - 1]? with
    | none =>
      rw [hdiv] at h1
      cases h1
    | some divider =>
      rw [hdiv] at h1
      obtain ⟨key, -, h2⟩ := lift_bind_eq_ok.mp h1
      obtain ⟨d1, b1, hhalves, h3⟩ := bind_eq_ok.mp h2
      cases h3
      exact ⟨cs, hcs, hmid, hhalves⟩

theorem splitInteriorIndex_eq_ok
    (hrun : splitInteriorIndex d h left right bytes b = .ok (d', split) b') :
    ∃ cs, interiorIndexCellsWith d h bytes = .ok cs ∧ cs.length / 2 ≠ 0 ∧
      rebuildInteriorHalves d h right cs b = .ok d' b' := by
  obtain ⟨cs, hcs, h1⟩ := lift_bind_eq_ok.mp hrun
  by_cases hmid : cs.length / 2 = 0
  · rw [if_pos hmid] at h1
    cases h1
  · rw [if_neg hmid] at h1
    cases hdiv : cs[cs.length / 2 - 1]? with
    | none =>
      rw [hdiv] at h1
      cases h1
    | some divider =>
      rw [hdiv] at h1
      obtain ⟨key, -, h2⟩ := lift_bind_eq_ok.mp h1
      obtain ⟨d1, b1, hhalves, h3⟩ := bind_eq_ok.mp h2
      cases h3
      exact ⟨cs, hcs, hmid, hhalves⟩

end

section
variable {κ : Type} [LT κ] [DecidableLT κ] {t : BranchKind κ}

/-- The split leaves two interior pages that have the children of the unsplit branch
between them, each once, and send every key where it does. -/
def SplitsBranch (t : BranchKind κ) (run : BtreeM (Bytes × LeafSplit)) (b : Btree) (h rightPgno : Nat)
    (whole : Branch κ Nat) : Prop :=
  ∃ d' split b' dr start lower last start' upper last' divider,
    run b = .ok (d', split) b' ∧ b'.pager.view rightPgno = .ok dr ∧ t.divider split = some divider ∧
    BranchPage t d' h start lower last ∧ BranchPage t dr (pageHeaderOffset rightPgno) start' upper last' ∧
    (branchOf lower last).children ++ (branchOf upper last').children = whole.children ∧
    ∀ k, (if divider < k then (branchOf upper last').route k else (branchOf lower last).route k) =
      whole.route k

/-- Two halves have two last children between them. -/
theorem not_splitsBranch {run : BtreeM (Bytes × LeafSplit)} {b : Btree} {h rightPgno : Nat}
    {whole : Branch κ Nat} (olds : List Bytes) (bytes : Bytes)
    (hrun : ∀ d' split b', run b = .ok (d', split) b' → ∃ d cs, cs.Perm (olds ++ [bytes]) ∧
      cs.length / 2 ≠ 0 ∧ rebuildInteriorHalves d h rightPgno cs b = .ok d' b')
    (hwhole : whole.entries.length = olds.length + 1) (hn : olds.length < 65536)
    (hold : ∀ c ∈ olds, c.length < 65536) (hnew : bytes.length < 65536) :
    ¬ SplitsBranch t run b h rightPgno whole := by
  intro h
  obtain ⟨d', split, b', dr, start, lower, last, start', upper, last', divider, hr, hv, -, hl, hu,
    hchildren, -⟩ := h
  obtain ⟨d, cs, hperm, hmid, hhalves⟩ := hrun d' split b' hr
  obtain ⟨r, r', page, s, dr', hleft, hget, hright, hwrite⟩ := rebuildInteriorHalves_eq_ok hhalves
  have hview := Pager.view_cached (Pager.writePage_eq_ok hwrite)
  have hpg := Pager.getPage_pgno hget
  simp only [hpg] at hview
  cases hview.symm.trans hv
  have hlen : cs.length = olds.length + 1 := by simpa using hperm.length_eq
  have hsmall : ∀ c ∈ cs, c.length < 65536 := fun c hc => by
    rcases List.mem_append.mp (hperm.mem_iff.mp hc) with hc | hc
    · exact hold c hc
    · rwa [List.mem_singleton.mp hc]
  have hcount := congrArg List.length hchildren
  simp only [Branch.children, branchOf, List.length_append, List.length_map, List.length_singleton,
    hwhole] at hcount
  have hlower := rebuildPage_count (interiorLayout_header h r) hleft
    (by rw [List.length_take]; omega) hl.holds
  have hupper := rebuildPage_count (interiorLayout_header _ r') hright
    (by rw [List.length_drop]; omega) hu.holds
  simp only [List.length_map, List.length_take, List.length_drop, List.map_eq_nil_iff] at hlower hupper
  -- a half that fills its page is a single cell, and no cell is so long
  have hsingle : ∀ part : List Bytes, (∀ c ∈ part, c ∈ cs) → part.length = 1 → total part ≠ 65536 := by
    intro part hsub hone
    obtain ⟨c, rfl⟩ := List.length_eq_one_iff.mp hone
    have := hsmall c (hsub c (List.mem_singleton_self c))
    rw [total_cons, total_nil]
    omega
  have htake := hsingle (cs.take (cs.length / 2)) fun c hc => List.mem_of_mem_take hc
  have hdrop := hsingle (cs.drop (cs.length / 2)) fun c hc => List.mem_of_mem_drop hc
  rw [List.length_take] at htake
  rw [List.length_drop] at hdrop
  rcases hlower with hlower | ⟨rfl, hlower⟩ <;> rcases hupper with hupper | ⟨rfl, hupper⟩
  · omega
  · exact hdrop (by simp only [List.length_nil] at hcount; omega) hupper
  · exact htake (by simp only [List.length_nil] at hcount; omega) hlower
  · simp only [List.length_nil] at hcount
    omega

end

theorem interiorCellsWith_perm {d bytes : Bytes} {h start right : Nat} {cells : List InteriorCell}
    (hp : BranchPage tableKind d h start cells right) {cs : List Bytes}
    (hcs : interiorCellsWith d h bytes = .ok cs) : cs.Perm (cells.map (·.bytes) ++ [bytes]) := by
  rw [interiorCellsWith, show readU16Be d (h + 3) = .ok cells.length from readCount hp.holds.toLists,
    Res.ok_bind] at hcs
  obtain ⟨cs', hcollect, hcs⟩ := Res.bind_eq_ok.mp hcs
  have hspec := hcollect.symm.trans (collectCells_spec hp.holds.toLists (g := fun c => c.bytes) (fun c hc => by
    obtain ⟨-, v, n, hread, hlen⟩ := (hp.cell c hc).read (hp.at hc)
    change (readVarint d (c.ptr + 4) >>= _) = _
    rw [hread, Res.ok_bind]
    exact slice_at (hp.at hc) (hp.holds.high _ (List.mem_map_of_mem hc)) (by omega))
    cells.length 0 (Nat.zero_add _))
  obtain rfl := Except.ok.inj hspec
  rw [List.drop_zero] at hcs
  cases hcs
  exact List.perm_insertionSort _ _

theorem interiorIndexCellsWith_perm {d bytes : Bytes} {h start right : Nat}
    {cells : List (Cell (Nat × Bytes))} (hp : BranchPage indexKind d h start cells right)
    {cs : List Bytes} (hcs : interiorIndexCellsWith d h bytes = .ok cs) :
    cs.Perm (cells.map (·.bytes) ++ [bytes]) := by
  rw [interiorIndexCellsWith, show readU16Be d (h + 3) = .ok cells.length from
    readCount hp.holds.toLists, Res.ok_bind] at hcs
  obtain ⟨cs', hcollect, hcs⟩ := Res.bind_eq_ok.mp hcs
  have hspec := hcollect.symm.trans (collectCells_spec hp.holds.toLists (g := fun c => c.bytes) (fun c hc => by
    obtain ⟨-, v, n, hread, hlen⟩ := (hp.cell c hc).read (hp.at hc)
    change (readVarint d (c.ptr + 4) >>= _) = _
    rw [hread, Res.ok_bind]
    exact slice_at (hp.at hc) (hp.holds.high _ (List.mem_map_of_mem hc)) (by omega))
    cells.length 0 (Nat.zero_add _))
  obtain rfl := Except.ok.inj hspec
  rw [List.drop_zero] at hcs
  cases hcs
  exact List.perm_insertionSort _ _

theorem buildInteriorTableCell_lt {child : Nat} {key : Int} {bytes : Bytes}
    (h : buildInteriorTableCell child key = .ok bytes) : bytes.length < 65536 := by
  obtain ⟨k, hk, h⟩ := Res.bind_eq_ok.mp h
  cases h
  have hlen : k.length ≤ MAX_VARINT_LEN := by
    rw [writeVarint] at hk
    split at hk
    · cases hk
      decide
    · dsimp only at hk
      split at hk
      · next hle =>
        cases hk
        rw [varintBytes_length, List.length_reverse]
        exact hle
      · cases hk
  rw [List.length_append, be32_length]
  exact Nat.lt_of_le_of_lt (Nat.add_le_add_left hlen 4) (by decide)

/-- The cells of a branch with a new one, in key order. -/
def withEntry {κ : Type} [LT κ] [DecidableLT κ] (entry : Nat × κ) (whole : Branch κ Nat) :
    Branch κ Nat :=
  ⟨whole.entries.orderedInsert (fun a e => ¬ e.2 < a.2) entry, whole.last⟩

theorem withEntry_length {κ : Type} [LT κ] [DecidableLT κ] (entry : Nat × κ) {cells : List (Cell (Nat × κ))}
    (right : Nat) :
    (withEntry entry (branchOf cells right)).entries.length = (cells.map (·.bytes)).length + 1 := by
  rw [withEntry, List.orderedInsert_length, branchOf, List.length_map, List.length_map]

/-- No split of an interior page leaves the children it had. -/
theorem splitInterior_never (b : Btree) (d : Bytes) (h start right left new child : Nat)
    (bytes : Bytes) :
    (∀ cells key, BranchPage tableKind d h start cells right →
      buildInteriorTableCell child key = .ok bytes →
        ¬ SplitsBranch tableKind (splitInteriorTable d h left new bytes) b h new
          (withEntry (child, key) (branchOf cells right))) ∧
    ∀ cells key, BranchPage indexKind d h start cells right →
      buildInteriorIndexCell child key = .ok bytes → bytes.length < d.length →
        ¬ SplitsBranch indexKind (splitInteriorIndex d h left new bytes) b h new
          (withEntry (child, key) (branchOf cells right)) := by
  constructor
  · intro cells key hp hb
    have hfew := hp.holds.few
    refine not_splitsBranch (cells.map (·.bytes)) bytes (fun d' split b' hrun => ?_)
      (withEntry_length _ _) (by simpa using hfew) hp.cell_lt (buildInteriorTableCell_lt hb)
    obtain ⟨cs, hcs, hmid, hhalves⟩ := splitInteriorTable_eq_ok hrun
    exact ⟨d, cs, interiorCellsWith_perm hp hcs, hmid, hhalves⟩
  · intro cells key hp hb hlen
    have hfew := hp.holds.few
    have hsmall := hp.holds.small
    refine not_splitsBranch (cells.map (·.bytes)) bytes (fun d' split b' hrun => ?_)
      (withEntry_length _ _) (by simpa using hfew) hp.cell_lt (by omega)
    obtain ⟨cs, hcs, hmid, hhalves⟩ := splitInteriorIndex_eq_ok hrun
    exact ⟨d, cs, interiorIndexCellsWith_perm hp hcs, hmid, hhalves⟩

/-! ### A page of 512 bytes -/

theorem branchPage_rebuild {κ : Type} {t : BranchKind κ} {d : Bytes} {h : Nat}
    (cells : List (Cell (Nat × κ))) (right : Nat) (h12 : h + 12 ≤ d.length) (hsmall : d.length < 65536)
    (htype : d[h]? = some t.pageType) (hcell : ∀ c ∈ cells, t.IsCell c.bytes c.val.1 c.val.2)
    (hright : right < 2 ^ 32)
    (hfit : h + 12 + (cells.length * 2 + total (cells.map (·.bytes))) ≤ d.length) :
    ∃ d', rebuildInteriorTablePage d h (cells.map (·.bytes)) right = .ok d' ∧
      d'.length = d.length ∧
      BranchPage t d' h (d.length - total (cells.map (·.bytes))) (placed d.length cells) right := by
  obtain ⟨d', h1, h2, h3, h4, h5⟩ := rebuildPage_spec (interiorLayout_header h right)
    (cells.map (·.bytes)) h12 hsmall (by omega)
    (by rw [List.length_map]; simp only [interiorLayout]; omega)
  refine ⟨d', h1, h2, ⟨(h5 h (Nat.le_refl _)).trans htype, ?_, fun c hc => ?_, h4 right rfl,
    hright⟩⟩
  · rw [placed_slots]
    exact h3
  · obtain ⟨c', hc', heq⟩ := mem_placed hc
    rw [heq]
    exact hcell c' hc'

/-- Two children with keys. -/
def pairCells : List InteriorCell :=
  [⟨0, [0, 0, 0, 10, 5], (10, 5)⟩, ⟨0, [0, 0, 0, 11, 9], (11, 9)⟩]

/-- A page with the children 10, 11 and 12. -/
def pairPage : Bytes := image (rebuildInteriorTablePage (blankPage PAGE_TYPE_INTERIOR_TABLE) 0
  (pairCells.map (·.bytes)) 12)

theorem pairPage_branch : BranchPage tableKind pairPage 0 502 (placed 512 pairCells) 12 := by
  have hcell : ∀ c ∈ pairCells, InteriorTableCell c.bytes c.val.1 c.val.2 := by
    have h5 : IsVarint [5] 5 := isVarint_writeVarint (by decide) rfl
    have h9 : IsVarint [9] 9 := isVarint_writeVarint (by decide) rfl
    intro c hc
    rcases List.mem_pair.mp hc with rfl | rfl
    · exact ⟨[5], 5, rfl, h5, by decide, by decide⟩
    · exact ⟨[9], 9, rfl, h9, by decide, by decide⟩
  obtain ⟨d, hrun, -, hp⟩ := branchPage_rebuild (t := tableKind) (h := 0)
    (d := blankPage PAGE_TYPE_INTERIOR_TABLE) pairCells 12 (by simp) (by simp) rfl hcell (by decide)
    (by rw [blankPage_length]; decide)
  have htotal : total (pairCells.map (·.bytes)) = 10 := rfl
  have himg : pairPage = d := congrArg image hrun
  rw [blankPage_length, htotal] at hp
  rw [himg]
  exact hp

theorem pairPage_children :
    branchOf (placed 512 pairCells) 12 = ⟨[(10, 5), (11, 9)], 12⟩ := by
  rw [branchOf, placed_map 512 (fun _ _ => rfl)]
  rfl

/-- The page, and a new one beside it. -/
def pairCache : AList fun _ : Nat => Frame :=
  (AList.singleton 3 { data := newPage PAGE_TYPE_INTERIOR_TABLE, dirty := true }).insert 2
    { data := pairPage, dirty := true }

def pairTree : Btree where
  pager := { newDatabase with cache := pairCache, pageCount := 3 }
  rootPage := 2
  flags := tableFlags

theorem pairTree_ready : pairTree.pager.Ready := ⟨fun h => (by cases h), rfl, rfl⟩

theorem pairCache_lookup : pairCache.lookup 2 = some { data := pairPage, dirty := true } := by
  rw [pairCache, AList.lookup_insert]

theorem pairTree_view : pairTree.pager.view 2 = .ok pairPage := by
  have hcache : pairTree.pager.cache = pairCache := rfl
  rw [Pager.view_eq, hcache, pairCache_lookup]

/-- Child `i` of the page is split. -/
theorem pairTree_splits {i left : Nat} {key : Int} (hk : KeyOk key)
    (hchild : ([10, 11, 12] : List Nat)[i]? = some left)
    (hcov : (⟨[(10, 5), (11, 9)], 12⟩ : Branch Int Nat).Covers i key)
    (hbelow : ∀ e, ([(10, 5), (11, 9)] : List (Nat × Int))[i]? = some e → key < e.2) :
    SplitsChild tableKind pairTree 2 i ⟨left, key, none, 13⟩ key pairPage 502 (placed 512 pairCells)
      12 where
  ready := pairTree_ready
  view := pairTree_view
  page := pairPage_branch
  child := by rw [pairPage_children]; exact hchild
  fresh := fun h => by
    have hmem := List.mem_of_getElem? hchild
    change 13 = left at h
    subst h
    revert hmem
    decide
  right_lt := show 13 < 2 ^ 32 by decide
  divider := rfl
  domain := ⟨by have := hk.1; omega, by have := hk.2; omega⟩
  covers := by rw [pairPage_children]; exact hcov
  below := fun c hc => by
    have hval : ((placed 512 pairCells).map (·.val))[i]? = some c.val := by
      rw [List.getElem?_map, hc]
      rfl
    exact hbelow c.val (by rwa [placed_map 512 (fun _ _ => rfl)] at hval)
  start_lt := by decide
  room := fun cell hcell => by
    obtain ⟨cell', hcell', -, -, h12⟩ := buildInteriorTableCell_ok left hk (by
      have := List.mem_of_getElem? hchild
      simp at this
      omega)
    cases hcell'.symm.trans hcell
    rw [placed_length]
    change 0 + 12 + (2 + 1) * 2 + 1 ≤ _
    omega

theorem insertDivider_routes_iff_last :
    Reroutes tableKind pairTree 2 2 ⟨12, 20, none, 13⟩ 20 (placed 512 pairCells) 12 :=
  ((insertDivider_routes_iff _ _ _ _ _ _ _).1 _ _ (pairTree_splits (i := 2) (by decide) rfl
    ⟨by decide, fun e he => (by cases he)⟩ fun e he => (by cases he))).mpr ⟨rfl, by decide⟩

/-- Page 10 was split at 3, and 4 still goes there. -/
theorem insertDivider_misroutes :
    SplitsChild tableKind pairTree 2 0 ⟨10, 3, none, 13⟩ 3 pairPage 502 (placed 512 pairCells) 12 ∧
    (outcome (do
      let _ ← insertIntoInteriorTable 2 ⟨10, 3, none, 13⟩
      let page ← onPager (Pager.getPage 2)
      lift (findChildPageTable page.data 0 4)) pairTree).toOption = some (10, 1) ∧
    ¬ Reroutes tableKind pairTree 2 0 ⟨10, 3, none, 13⟩ 3 (placed 512 pairCells) 12 := by
  have hchild : ([10, 11, 12] : List Nat)[0]? = some 10 := rfl
  have hs := pairTree_splits (show KeyOk 3 by decide) hchild
    ⟨by decide, fun e he => (by cases he; decide)⟩ fun e he => (by cases he; decide)
  refine ⟨hs, by decide +kernel, fun h => ?_⟩
  have := (insertTable_reroutes_iff hs).mp h
  exact absurd this.1 (by decide)

theorem splitInterior_never_pair :
    ¬ SplitsBranch tableKind (splitInteriorTable pairPage 0 2 3 [0, 0, 0, 13, 7]) pairTree 0 3
      (withEntry (13, 7) (branchOf (placed 512 pairCells) 12)) :=
  (splitInterior_never _ _ _ _ _ _ _ _ _).1 _ _ pairPage_branch rfl

/-- Page 12 is a child of both halves. -/
theorem splitInterior_repeats :
    (outcome (do
      let (data, split) ← splitInteriorTable pairPage 0 2 3 [0, 0, 0, 13, 7]
      let page ← onPager (Pager.getPage 3)
      let lower ← lift ([0, 1].mapM fun slot => childPageAtSlot data 0 slot)
      let upper ← lift ([0, 1, 2].mapM fun slot => childPageAtSlot page.data 0 slot)
      pure (lower, split.dividerKey, upper)) pairTree).toOption =
        some ([10, 12], 5, [13, 11, 12]) ∧
    ¬ SplitsBranch tableKind (splitInteriorTable pairPage 0 2 3 [0, 0, 0, 13, 7]) pairTree 0 3
      (withEntry (13, 7) (branchOf (placed 512 pairCells) 12)) := by
  refine ⟨by decide +kernel, not_splitsBranch (pairCells.map (·.bytes))
    [0, 0, 0, 13, 7] (fun d' split b' hrun => ?_) (by rw [pairPage_children]; rfl) (by decide) (by decide) (by decide)⟩
  obtain ⟨cs, hcs, hmid, hhalves⟩ := splitInteriorTable_eq_ok hrun
  have hperm := interiorCellsWith_perm pairPage_branch hcs
  rw [placed_map 512 (fun _ _ => rfl)] at hperm
  exact ⟨pairPage, cs, hperm, hmid, hhalves⟩

end Btree

end Sqllite
