import Sqllite.L2Storage.Cursor

/-!
# Scans after deletions

`Btree::delete` takes a cell out of the leaf it stands in and leaves the pages
where they are, so a leaf can become empty; the cursor takes an empty leaf for
the end of the table.

* `Btree.deletes_spec`: deletions take the rows of the given keys out of the leaves.
* `Btree.scan_after_deletes_iff`: a scan then yields the remaining rows exactly
  when no emptied leaf stands in front of one that is not.
-/
namespace Sqllite
open Lib Lib.Run Lib.Span Lib.Slotted

/-! ## Leaves with fewer cells -/

/-- The leaf with the cells whose key meets `p`. -/
def Leaf.keep (p : Int → Bool) (l : Leaf) : Leaf :=
  { l with cells := l.cells.filter fun c => p c.key }

@[simp] theorem Leaf.keep_pgno (p : Int → Bool) (l : Leaf) : (l.keep p).pgno = l.pgno := rfl

theorem Leaf.keep_keys (p : Int → Bool) (l : Leaf) : (l.keep p).keys = l.keys.filter p := by
  rw [Leaf.keys, Leaf.keep, Leaf.keys, List.filter_map]
  rfl

theorem Leaf.keep_rows (p : Int → Bool) (l : Leaf) :
    (l.keep p).rows = l.rows.filter fun r => p r.1 := by
  rw [Leaf.rows, Leaf.keep, Leaf.rows, List.filter_map]
  rfl

theorem Leaf.keep_self {p : Int → Bool} {l : Leaf} (h : ∀ key ∈ l.keys, p key = true) :
    l.keep p = l := by
  have : l.cells.filter (fun c => p c.key) = l.cells :=
    List.filter_eq_self.mpr fun c hc => h c.key (List.mem_map_of_mem hc)
  rw [Leaf.keep, this]

theorem Leaf.keep_keep (p q : Int → Bool) (l : Leaf) :
    (l.keep p).keep q = l.keep fun key => p key && q key := by
  simp only [Leaf.keep, List.filter_filter]
  congr 2
  funext c
  rw [Bool.and_comm]

theorem flatMap_keys (leaves : List Leaf) :
    leaves.flatMap (·.keys) = (leaves.flatMap (·.rows)).map (·.1) := by
  rw [List.map_flatMap]
  refine List.flatMap_congr fun l _ => ?_
  rw [Leaf.rows, List.map_map]
  rfl

/-- Where keys are distinct, taking the first cell of a key out takes out all of them. -/
theorem eraseP_eq_filter (key : Int) : ∀ {cells : List LeafCell},
    (cells.map (·.key)).Nodup →
    cells.eraseP (fun c => decide (c.key = key)) = cells.filter fun c => decide (c.key ≠ key)
  | [], _ => rfl
  | c :: cells, h => by
    obtain ⟨hnot, h⟩ := List.nodup_cons.mp (List.map_cons ▸ h)
    by_cases hc : c.key = key
    · rw [List.eraseP_cons_of_pos (by simpa using hc), List.filter_cons_of_neg (by simpa using hc)]
      refine (List.filter_eq_self.mpr fun x hx => ?_).symm
      have hne : x.key ≠ key := fun heq => hnot (List.mem_map.mpr ⟨x, hx, heq.trans hc.symm⟩)
      simpa using hne
    · rw [List.eraseP_cons_of_neg (by simpa using hc), List.filter_cons_of_pos (by simpa using hc),
        eraseP_eq_filter key h]

/-! ## Well-formed trees -/

structure WellFormed (s : Pager) (root : Nat) (leaves : List Leaf) : Prop where
  tree : ∃ n, TreeAt s n root leaves
  distinct : (leaves.map (·.pgno)).Nodup
  sorted : (leaves.flatMap (·.keys)).Pairwise (· < ·)

theorem WellFormed.leaf_sorted {s : Pager} {root : Nat} {leaves : List Leaf}
    (h : WellFormed s root leaves) : ∀ l ∈ leaves, l.keys.Pairwise (· < ·) :=
  (List.pairwise_flatMap.mp h.sorted).1

/-- Distinct leaves stand on distinct pages. -/
theorem WellFormed.pgno_ne {s : Pager} {root : Nat} {leaves : List Leaf}
    (h : WellFormed s root leaves) {l l' : Leaf} (hl : l ∈ leaves) (hl' : l' ∈ leaves)
    (hne : l ≠ l') : l.pgno ≠ l'.pgno := fun heq =>
  hne (List.inj_on_of_nodup_map h.distinct hl hl' heq)

/-! ## One deletion -/

/-- What is left of a tree when a key goes from the one leaf that has it. -/
theorem TreeAt.without {s t : Pager} {q : Leaf} {key : Int} (hq : LeafAt s q)
    (hw : Pager.Writes [q.pgno] s t) (hq' : LeafAt t (q.keep (· ≠ key))) {n p : Nat}
    {leaves : List Leaf} (h : TreeAt s n p leaves)
    (hothers : ∀ l ∈ leaves, l ≠ q → l.pgno ≠ q.pgno ∧ key ∉ l.keys) :
    TreeAt t n p (leaves.map (·.keep (· ≠ key))) := by
  refine h.map (fun p cells right hint => hint.writes hw ?_) fun l hl => ?_
  · rintro hp
    rw [List.mem_singleton] at hp
    exact hq.not_interior (hp ▸ hint)
  · refine ⟨?_, rfl, fun k hk => ?_⟩
    · by_cases hlq : l = q
      · rw [hlq]; exact hq'
      · obtain ⟨hp, hkey⟩ := hothers l hl hlq
        rw [Leaf.keep_self fun k hk => by simpa using fun heq : k = key => hkey (heq ▸ hk)]
        exact (h.leafAt l hl).writes hw (by simpa using hp)
    · rw [Leaf.keep_keys] at hk
      exact (List.mem_filter.mp hk).1

theorem WellFormed.without {s t : Pager} {root : Nat} {leaves : List Leaf}
    (h : WellFormed s root leaves) {l : Leaf} {key : Int} (hl : l ∈ leaves)
    (hw : Pager.Writes [l.pgno] s t) (hl' : LeafAt t (l.keep (· ≠ key)))
    (hothers : ∀ l' ∈ leaves, l' ≠ l → l'.pgno ≠ l.pgno ∧ key ∉ l'.keys) :
    WellFormed t root (leaves.map (·.keep (· ≠ key))) := by
  obtain ⟨n, htree⟩ := h.tree
  refine ⟨⟨n, htree.without (htree.leafAt l hl) hw hl' hothers⟩, ?_, ?_⟩
  · rw [List.map_map]
    exact h.distinct
  · rw [List.flatMap_map]
    simp only [Leaf.keep_keys]
    rw [← List.filter_flatMap]
    exact h.sorted.filter _

namespace Btree

/-- `delete` takes the key out of the leaf it is looked for in. -/
theorem delete_spec {b : Btree} {leaves : List Leaf} (hs : b.pager.Ready)
    (hf : b.flags = tableFlags) (hw : WellFormed b.pager b.rootPage leaves) (key : Int) :
    ∃ l ∈ leaves, ∃ found t, delete key b = .ok found { b with pager := t } ∧
      (found = true ↔ key ∈ l.keys) ∧ (found = false → b.pager.Reads t) ∧
      Pager.Writes [l.pgno] b.pager t ∧ LeafAt t (l.keep (· ≠ key)) ∧
      ∀ l' ∈ leaves, l' ≠ l → l'.pgno ≠ l.pgno ∧ key ∉ l'.keys := by
  obtain ⟨n, htree⟩ := hw.tree
  obtain ⟨l, hl, t, hroute, ht, hone⟩ := htree.height.route hs key b (Pager.Reads.refl _)
  have hleaf := htree.leafAt l hl
  obtain ⟨hle, d, hd, hlen, hpage⟩ := hleaf
  obtain ⟨page, t1, hget, hpg, rfl, ht1⟩ := onPager_getPage hs (b := { b with pager := t }) ht hd
  have hnd : (l.cells.map (·.key)).Nodup :=
    (hw.leaf_sorted l hl).imp (fun {_ _} h => Int.ne_of_lt h)
  have hothers : ∀ l' ∈ leaves, l' ≠ l → l'.pgno ≠ l.pgno ∧ key ∉ l'.keys := fun l' hl' hne =>
    ⟨hw.pgno_ne hl' hl hne, fun hk => hne (hone l' hl' hk)⟩
  have hrun : ∀ {deleted}, deleteCell page.data (pageHeaderOffset l.pgno) key = .ok deleted →
      delete key b = (deleted.elim (pure false) fun data => do
        onPager (Pager.writePage { page with data := data })
        pure true : BtreeM Bool) { b with pager := t1 } := by
    intro deleted hcell
    rw [delete, bind_ok (get_apply _), if_neg (by rw [hf]; decide)]
    refine (bind_ok hroute _).trans ((bind_ok hget _).trans ?_)
    rw [hcell, bind_ok (lift_ok _ _)]
    cases deleted <;> rfl
  have herase := eraseP_eq_filter key hnd
  rw [List.eraseP_eq_eraseIdx] at herase
  cases hi : l.cells.findIdx? fun c => decide (c.key = key) with
  | none =>
    rw [hi] at herase
    have hkeep : l.keep (· ≠ key) = l := by rw [Leaf.keep, ← herase]
    have hno : key ∉ l.keys := fun hk => by
      obtain ⟨c, hc, hck⟩ := List.mem_map.mp hk
      simpa [hck] using List.findIdx?_eq_none_iff.mp hi c hc
    refine ⟨l, hl, false, t1, ?_, by simpa using hno, fun _ => ht1, (ht1.writes hs).mono (by simp), ?_,
      hothers⟩
    · rw [hrun (hpage.delete_none hi)]
      rfl
    · rw [hkeep]
      exact LeafAt.writes ⟨hle, _, hd, hlen, hpage⟩ (ht1.writes hs) (by simp)
  | some i =>
    rw [hi] at herase
    obtain ⟨d', hdel, hlen', hpage'⟩ := hpage.delete hi
    obtain ⟨t2, hwrite, hw2, hv2, -⟩ := Pager.writePage_ready (ht1.ready hs)
      { page with data := d' }
    rw [hpg] at hw2 hv2
    have hall : Pager.Writes [l.pgno] b.pager t2 := (ht1.writes hs).trans hw2
    have hyes : key ∈ l.keys := by
      obtain ⟨hlt, hki, -⟩ := List.findIdx?_eq_some_iff_getElem.mp hi
      rw [← of_decide_eq_true hki]
      exact List.mem_map_of_mem (List.getElem_mem hlt)
    refine ⟨l, hl, true, t2, ?_, by simpa using hyes, fun h => (by cases h), hall, ?_, hothers⟩
    · rw [hrun hdel]
      exact bind_ok (zoom_ok hwrite) _
    · refine ⟨Nat.le_trans hle hall.pageCount, d', hv2, ?_, ?_⟩
      · rw [hlen', hlen, hall.pageSize]
      · rw [Leaf.keep, ← herase]
        exact hpage'

/-! ## Runs of deletions -/

/-- `delete` of one key after another. -/
def deletes (keys : List Int) : BtreeM Unit :=
  forEach (fun key => do
    let _ ← delete key
    pure ()) keys

/-- Deletions take the rows with these keys out of the leaves. -/
theorem deletes_spec : ∀ (keys : List Int) {b : Btree} {leaves : List Leaf}, b.pager.Ready →
    b.flags = tableFlags → WellFormed b.pager b.rootPage leaves →
    ∃ t, deletes keys b = .ok () { b with pager := t } ∧
      Pager.Writes (leaves.map (·.pgno)) b.pager t ∧
      WellFormed t b.rootPage (leaves.map (·.keep (· ∉ keys)))
  | [], b, leaves, hs, _, hw => by
    have hid : leaves.map (·.keep (· ∉ ([] : List Int))) = leaves := by
      refine (List.map_congr_left fun l _ => ?_).trans (List.map_id _)
      exact Leaf.keep_self fun _ _ => by simp
    exact ⟨b.pager, rfl, ((Pager.Reads.refl _).writes hs).mono (by simp), hid.symm ▸ hw⟩
  | key :: keys, b, leaves, hs, hf, hw => by
    obtain ⟨l, hl, found, t, hdel, -, -, hwrites, hleaf, hothers⟩ := delete_spec hs hf hw key
    have hstep := hw.without hl hwrites hleaf hothers
    obtain ⟨t', hrun, hwrites', hw'⟩ := deletes_spec keys (b := { b with pager := t }) hwrites.ready
      hf hstep
    rw [List.map_map] at hwrites'
    refine ⟨t', ?_, (hwrites.trans hwrites').mono fun p hp => ?_, ?_⟩
    · have hone : (do
          let _ ← delete key
          pure () : BtreeM Unit) b = .ok () { b with pager := t } := bind_ok hdel _
      exact (bind_ok hone _).trans hrun
    · rcases List.mem_append.mp hp with hp | hp
      · rw [List.mem_singleton.mp hp]
        exact List.mem_map_of_mem hl
      · exact hp
    · rw [List.map_map] at hw'
      have hfun : (fun l : Leaf => l.keep (· ∉ key :: keys)) =
          (fun l : Leaf => l.keep (· ∉ keys)) ∘ fun l : Leaf => l.keep (· ≠ key) := by
        funext l
        rw [Function.comp_apply, Leaf.keep_keep]
        congr 1
        funext k
        simp [List.mem_cons, not_or, Bool.decide_and]
      rw [hfun]
      exact hw'

/-! ## Scans -/

/-- The rows that deletions of these keys leave. -/
def remaining (leaves : List Leaf) (keys : List Int) : List Row :=
  (leaves.flatMap (·.rows)).filter (·.1 ∉ keys)

/-- No leaf that loses all its rows stands in front of one that keeps some. -/
def EmptiedLast (leaves : List Leaf) (keys : List Int) : Prop :=
  leaves.Pairwise fun l l' => (∀ key ∈ l.keys, key ∈ keys) → ∀ key ∈ l'.keys, key ∈ keys

/-- `n` calls of `next`, then one more. -/
def nexts : Nat → CursorM Bool
  | 0 => BtreeCursor.next
  | n + 1 => do
    let _ ← BtreeCursor.next
    nexts n

/-- A scan yields these rows, in ascending order of their keys, and from then on
`next` returns false. -/
def ScansExactly (c : BtreeCursor) (rows : List Row) : Prop :=
  (rows.map (·.1)).Pairwise (· < ·) ∧ ∃ c', BtreeCursor.Yields BtreeCursor.first c rows c' ∧
    ∀ n, ∃ c'', nexts n c' = .ok false c''

theorem nexts_stopped {s : Pager} (hs : s.Ready) : ∀ (n : Nat) {c : BtreeCursor} {ahead : List Leaf},
    BtreeCursor.Stopped s c ahead → (∀ l ∈ ahead, l.cells = []) →
    ∃ c', nexts n c = .ok false c'
  | 0, _, _, h, he => (h.next hs he).imp fun _ h => h.1
  | n + 1, _, _, h, he => by
    obtain ⟨c1, hrun, hstop⟩ := h.next hs he
    obtain ⟨c', hrun'⟩ := nexts_stopped hs n hstop fun l hl => he l (List.mem_of_mem_tail hl)
    exact ⟨c', (bind_ok hrun _).trans hrun'⟩

/-- The leaves up to the first empty one are all the rows exactly when nothing
but empty leaves stand behind it. -/
theorem scanned_eq_iff : ∀ leaves : List Leaf, scanned leaves = leaves.flatMap (·.rows) ↔
    leaves.Pairwise fun l l' => l.cells = [] → l'.cells = []
  | [] => by simp [scanned]
  | l :: leaves => by
    rw [scanned, List.flatMap_cons, List.pairwise_cons]
    by_cases hl : l.cells = []
    · have hrows : l.rows = [] := by rw [Leaf.rows, hl]; rfl
      rw [if_pos hl, hrows, List.nil_append, eq_comm, List.flatMap_eq_nil_iff]
      constructor
      · intro h
        have hnil : ∀ l' ∈ leaves, l'.cells = [] := fun l' hl' => List.map_eq_nil_iff.mp (h l' hl')
        refine ⟨fun l' hl' _ => hnil l' hl', ?_⟩
        exact List.pairwise_of_forall_mem_list fun _ _ b hb _ => hnil b hb
      · rintro ⟨h, -⟩ l' hl'
        rw [Leaf.rows, h l' hl' hl]
        rfl
    · rw [if_neg hl, List.append_cancel_left_eq, scanned_eq_iff leaves]
      exact ⟨fun h => ⟨fun _ _ h0 => absurd h0 hl, h⟩, fun h => h.2⟩

/-- Nothing but empty leaves behind the first empty one. -/
theorem unscanned_nil : ∀ {leaves : List Leaf},
    (leaves.Pairwise fun l l' => l.cells = [] → l'.cells = []) →
    ∀ l ∈ unscanned leaves, l.cells = []
  | [], _, _, h => by cases h
  | l :: leaves, h, l', hl' => by
    obtain ⟨h1, h2⟩ := List.pairwise_cons.mp h
    rw [unscanned] at hl'
    split at hl'
    · next hl => exact h1 l' hl' hl
    · exact unscanned_nil h2 l' hl'

theorem emptiedLast_iff (leaves : List Leaf) (keys : List Int) : EmptiedLast leaves keys ↔
    (leaves.map (·.keep (· ∉ keys))).Pairwise fun l l' => l.cells = [] → l'.cells = [] := by
  have hempty : ∀ l : Leaf, (l.keep (· ∉ keys)).cells = [] ↔ ∀ key ∈ l.keys, key ∈ keys :=
    fun l => by simp [Leaf.keep, Leaf.keys]
  rw [List.pairwise_map, EmptiedLast]
  simp only [hempty]

theorem remaining_eq (leaves : List Leaf) (keys : List Int) :
    (leaves.map (·.keep (· ∉ keys))).flatMap (·.rows) = remaining leaves keys := by
  rw [List.flatMap_map, remaining, List.filter_flatMap]
  simp only [Leaf.keep_rows]

/-- A scan yields all the rows exactly when no empty leaf stands in front of one
that is not. -/
theorem scansExactly_iff {b : Btree} {leaves : List Leaf} (hs : b.pager.Ready)
    (hf : b.flags = tableFlags) (hw : WellFormed b.pager b.rootPage leaves) :
    ScansExactly (cursor b) (leaves.flatMap (·.rows)) ↔
      leaves.Pairwise fun l l' => l.cells = [] → l'.cells = [] := by
  obtain ⟨n, htree⟩ := hw.tree
  obtain ⟨c', hy, hstop⟩ := BtreeCursor.scan_spec hs (c := cursor b) (Pager.Reads.refl b.pager) hf
    htree
  rw [← scanned_eq_iff]
  constructor
  · rintro ⟨-, c'', hy', -⟩
    exact (hy.unique hy').1
  · intro heq
    have hlast := (scanned_eq_iff _).mp heq
    refine ⟨?_, c', heq ▸ hy, fun n => nexts_stopped hs n hstop (unscanned_nil hlast)⟩
    rw [← flatMap_keys]
    exact hw.sorted

/-- After deletions a scan yields the remaining rows exactly when no leaf that
lost all its rows stands in front of one that kept some. -/
theorem scan_after_deletes_iff {b : Btree} {leaves : List Leaf} (hs : b.pager.Ready)
    (hf : b.flags = tableFlags) (hw : WellFormed b.pager b.rootPage leaves) (keys : List Int) :
    ∃ t, deletes keys b = .ok () { b with pager := t } ∧
      (ScansExactly (cursor { b with pager := t }) (remaining leaves keys) ↔
        EmptiedLast leaves keys) := by
  obtain ⟨t, hrun, hwrites, hw'⟩ := deletes_spec keys hs hf hw
  refine ⟨t, hrun, ?_⟩
  rw [emptiedLast_iff, ← remaining_eq]
  exact scansExactly_iff (b := { b with pager := t }) hwrites.ready hf hw'

/-! ### Two leaves -/

/-- A page of a type, without cells. -/
def blankPage (pageType : UInt8) : Bytes := pageType :: List.replicate 511 0

/-- The bytes a page function returns. -/
def image (r : Result Bytes) : Bytes := r.toOption.getD []

/-- A leaf with one row. -/
def rowPage (key : Int) (record : Bytes) : Bytes :=
  image (rebuildLeafTablePage (blankPage PAGE_TYPE_LEAF_TABLE) 0
    [(key, image (buildTableCell key record))])

/-- The leaf of a row, in a page of its own. -/
def rowLeaf (pgno : Nat) (key : Int) (record : Bytes) : Leaf where
  pgno := pgno
  start := 512 - total [image (buildTableCell key record)]
  cells := placed 512 [⟨0, image (buildTableCell key record), (key, record)⟩]

/-- A leaf with one row. -/
def oneRowPage (key : Int) : Bytes :=
  image (rebuildLeafTablePage (blankPage PAGE_TYPE_LEAF_TABLE) 0
    [(key, image (buildTableCell key [7]))])

/-- The page above the leaves of rows 1 and 2. -/
def twoLeavesRoot : Bytes :=
  image (rebuildInteriorTablePage (blankPage PAGE_TYPE_INTERIOR_TABLE) 0
    [image (buildInteriorTableCell 2 1)] 3)

def twoLeavesCache : Table Nat Frame :=
  ((AList.singleton 2 { data := oneRowPage 1, dirty := true }).insert 3
    { data := oneRowPage 2, dirty := true }).insert 4 { data := twoLeavesRoot, dirty := true }

/-- Rows 1 and 2 in leaves of their own. -/
def twoLeaves : Btree where
  pager :=
    { file := [], walFile := none, faults := [], wal := none, pageSize := 512,
      header := DatabaseHeader.new 512, cache := twoLeavesCache, journalMode := .delete,
      inTransaction := true, readOnly := false, pageCount := 4, memory := false }
  rootPage := 4
  flags := tableFlags

/-- The leaf of a row, in a page of its own. -/
def oneRowLeaf (pgno : Nat) (key : Int) : Leaf where
  pgno := pgno
  start := 512 - total [image (buildTableCell key [7])]
  cells := placed 512 [⟨0, image (buildTableCell key [7]), (key, [7])⟩]

@[simp] theorem blankPage_length (pageType : UInt8) : (blankPage pageType).length = 512 := by
  rw [blankPage, List.length_cons, List.length_replicate]

theorem rowLeaf_at {s : Pager} {key : Int} {record : Bytes} (hk : KeyOk key)
    (hr : record.length ≤ 64) {pgno : Nat} (hp : pgno ≠ ROOT_PAGE) (hn : pgno ≤ s.pageCount)
    (hsize : s.pageSize = 512) (hv : s.view pgno = .ok (rowPage key record)) :
    LeafAt s (rowLeaf pgno key record) := by
  obtain ⟨bytes, hb, hcell, hlen⟩ := buildTableCell_ok record hk (by omega)
  have himg : image (buildTableCell key record) = bytes := by rw [hb]; rfl
  have hh : pageHeaderOffset pgno = 0 := if_neg hp
  obtain ⟨d, h1, h2, h3⟩ := leafPage_rebuild (d := blankPage PAGE_TYPE_LEAF_TABLE) (h := 0)
    [⟨0, bytes, (key, record)⟩] (by simp) (by simp) rfl
    (fun c hc => by rw [List.mem_singleton.mp hc]; exact hcell)
    (by simp only [leafSize, List.map_cons, List.map_nil, total_cons, total_nil, blankPage_length,
          List.length_singleton] at hlen ⊢
        omega)
  rw [blankPage_length] at h2 h3
  have hpage : rowPage key record = d := by
    rw [rowPage, himg]
    exact congrArg image h1
  rw [hpage] at hv
  refine ⟨hn, d, hv, h2.trans hsize.symm, ?_⟩
  rw [rowLeaf, himg]
  exact hh ▸ h3

theorem oneRowLeaf_at {s : Pager} {key : Int} (hk : KeyOk key) {pgno : Nat} (hp : pgno ≠ ROOT_PAGE)
    (hn : pgno ≤ s.pageCount) (hsize : s.pageSize = 512) (hv : s.view pgno = .ok (oneRowPage key)) :
    LeafAt s (oneRowLeaf pgno key) := rowLeaf_at hk (by decide) hp hn hsize hv

theorem twoLeaves_cached :
    twoLeavesCache.lookup 2 = some { data := oneRowPage 1, dirty := true } ∧
    twoLeavesCache.lookup 3 = some { data := oneRowPage 2, dirty := true } ∧
    twoLeavesCache.lookup 4 = some { data := twoLeavesRoot, dirty := true } := by
  unfold twoLeavesCache
  rw [AList.lookup_insert_ne (by decide), AList.lookup_insert_ne (by decide),
    AList.lookup_insert_ne (by decide), AList.lookup_insert, AList.lookup_insert]
  exact ⟨List.dlookup_cons_eq _ _ _, rfl, rfl⟩

theorem twoLeaves_ready : twoLeaves.pager.Ready := ⟨fun h => (by cases h), rfl, rfl⟩

theorem twoLeaves_wellFormed :
    WellFormed twoLeaves.pager twoLeaves.rootPage [oneRowLeaf 2 1, oneRowLeaf 3 2] := by
  obtain ⟨bytes, hb, hcell, h5, h12⟩ := buildInteriorTableCell_ok 2 (show KeyOk 1 by decide)
    (by decide)
  have himg : image (buildInteriorTableCell 2 1) = bytes := by rw [hb]; rfl
  obtain ⟨d, h1, h2, h3⟩ := interiorPage_rebuild (d := blankPage PAGE_TYPE_INTERIOR_TABLE) (h := 0)
    [⟨0, bytes, (2, 1)⟩] 3 (by simp) (by simp) rfl
    (fun c hc => by rw [List.mem_singleton.mp hc]; exact hcell) (by decide)
    (by simp only [interiorSize, List.map_cons, List.map_nil, total_cons, total_nil,
          blankPage_length, List.length_singleton]
        omega)
  rw [blankPage_length] at h2 h3
  have hd : twoLeavesRoot = d := by
    rw [twoLeavesRoot, himg]
    exact congrArg image h1
  have hv2 := Pager.view_cached (s := twoLeaves.pager) twoLeaves_cached.1
  have hv3 := Pager.view_cached (s := twoLeaves.pager) twoLeaves_cached.2.1
  have hv4 := Pager.view_cached (s := twoLeaves.pager) twoLeaves_cached.2.2
  simp only [hd] at hv2 hv3 hv4
  have hl1 := oneRowLeaf_at (show KeyOk 1 by decide) (show 2 ≠ ROOT_PAGE by decide) (by decide) rfl hv2
  have hl2 := oneRowLeaf_at (show KeyOk 2 by decide) (show 3 ≠ ROOT_PAGE by decide) (by decide) rfl hv3
  refine ⟨⟨2, .inr ⟨_, 3, [[oneRowLeaf 2 1], [oneRowLeaf 3 2]],
    ⟨by decide, d, hv4, h2, h3⟩, ?_, ?_, rfl⟩⟩, by decide, by decide⟩
  · exact .cons (.inl ⟨_, rfl, hl1, rfl⟩) (.cons (.inl ⟨_, rfl, hl2, rfl⟩) .nil)
  · intro i part hi l hl key hkey
    rcases i with _ | _ | i
    · cases hi
      rw [List.mem_singleton.mp hl] at hkey
      rw [show key = 1 by simpa [oneRowLeaf, Leaf.keys, placed, LeafCell.key] using hkey]
      rfl
    · cases hi
      rw [List.mem_singleton.mp hl] at hkey
      rw [show key = 2 by simpa [oneRowLeaf, Leaf.keys, placed, LeafCell.key] using hkey]
      rfl
    · cases hi

theorem scan_after_deletes_iff_two : ∃ t, deletes [1] twoLeaves = .ok () { twoLeaves with pager := t } ∧
    (ScansExactly (cursor { twoLeaves with pager := t })
        (remaining [oneRowLeaf 2 1, oneRowLeaf 3 2] [1]) ↔
      EmptiedLast [oneRowLeaf 2 1, oneRowLeaf 3 2] [1]) :=
  scan_after_deletes_iff twoLeaves_ready rfl twoLeaves_wellFormed [1]

/-- With row 1 gone, a scan does not find row 2. -/
theorem scan_misses_row : twoLeaves.pager.Ready ∧
    WellFormed twoLeaves.pager twoLeaves.rootPage [oneRowLeaf 2 1, oneRowLeaf 3 2] ∧
    (∀ l ∈ [oneRowLeaf 2 1, oneRowLeaf 3 2], l.cells ≠ []) ∧
    ∃ t, deletes [1] twoLeaves = .ok () { twoLeaves with pager := t } ∧
      ¬ ScansExactly (cursor { twoLeaves with pager := t })
        (remaining [oneRowLeaf 2 1, oneRowLeaf 3 2] [1]) := by
  obtain ⟨t, hrun, hwrites, hw⟩ := deletes_spec [1] twoLeaves_ready rfl twoLeaves_wellFormed
  refine ⟨twoLeaves_ready, twoLeaves_wellFormed, by decide, t, hrun, ?_⟩
  rintro ⟨-, c', hy, -⟩
  obtain ⟨n, htree⟩ := hw.tree
  obtain ⟨c'', hy', -⟩ := BtreeCursor.scan_spec hwrites.ready (c := cursor { twoLeaves with pager := t })
    (Pager.Reads.refl t) rfl htree
  exact absurd (hy.unique hy').1 (by decide)

end Btree

end Sqllite
