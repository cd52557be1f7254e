import Sqllite.L2Storage.InsertRun

/-!
# One row of a tree

`delete` and `replace` find the one leaf that can hold the key and change its page,
`insert` of a key that is stored fails before it writes.

* `Btree.row_ops_iff`: the three of them on a well-formed tree, for any key.
-/
namespace Sqllite
open Lib Lib.Run Lib.Span Lib.Slotted

/-- The rows with another record for a key. -/
def setRecord (key : Int) (record : Bytes) (rows : List Row) : List Row :=
  rows.map fun row => if row.1 = key then (key, record) else row

theorem setRecord_of_absent {key : Int} {record : Bytes} {rows : List Row}
    (h : ∀ row ∈ rows, row.1 ≠ key) : setRecord key record rows = rows := by
  refine (List.map_congr_left fun row hrow => ?_).trans (List.map_id rows)
  simp [h row hrow]

/-- Where keys are distinct, the row at its place is the only one. -/
theorem setRecord_eq_set {key : Int} {record : Bytes} {rows : List Row} {i : Nat}
    (hnd : (rows.map (·.1)).Nodup) (hi : (rows.map (·.1))[i]? = some key) :
    setRecord key record rows = rows.set i (key, record) := by
  refine List.ext_getElem (by simp [setRecord]) fun j h1 h2 => ?_
  have hj : j < rows.length := by simpa [setRecord] using h1
  obtain ⟨hlt, hget⟩ := List.getElem?_eq_some_iff.mp hi
  simp only [setRecord, List.getElem_map, List.getElem_set]
  by_cases hij : i = j
  · subst hij
    rw [if_pos rfl, if_pos (by simpa using hget)]
  · rw [if_neg hij, if_neg]
    intro hkey
    have hj' : j < (rows.map (·.1)).length := by simpa using hj
    have heq : (rows.map (·.1))[i] = (rows.map (·.1))[j] := by simpa [hkey] using hget
    exact hij (hnd.getElem_inj_iff.mp heq)

namespace Btree

section
variable {b : Btree} {leaves : List Leaf} {key : Int} {record : Bytes}

/-- `delete` says whether the key was stored and takes its row out, on one page. -/
def DeletesRow (b : Btree) (leaves : List Leaf) (key : Int) : Prop :=
  ∃ found t leaves', delete key b = .ok found { b with pager := t } ∧
    (found = true ↔ key ∈ leaves.flatMap (·.keys)) ∧ WellFormed t b.rootPage leaves' ∧
    leaves'.flatMap (·.rows) = (leaves.flatMap (·.rows)).filter (·.1 ≠ key) ∧
    (∃ l ∈ leaves, Pager.Writes [l.pgno] b.pager t) ∧ (found = false → b.pager.Reads t)

/-- `replace` changes the record of the key, on one page. -/
def ReplacesRow (b : Btree) (leaves : List Leaf) (key : Int) (record : Bytes) : Prop :=
  ∃ t leaves', replace key record b = .ok () { b with pager := t } ∧
    WellFormed t b.rootPage leaves' ∧
    leaves'.flatMap (·.rows) = setRecord key record (leaves.flatMap (·.rows)) ∧
    ∃ l ∈ leaves, Pager.Writes [l.pgno] b.pager t

/-- `insert` reports the key as a duplicate, and every page reads as before. -/
def RefusesRow (b : Btree) (key : Int) (record : Bytes) : Prop :=
  ∃ t, insert key record b =
      .error (.err (.sql .constraint "UNIQUE constraint failed")) { b with pager := t } ∧
    b.pager.Reads t

theorem deletesRow (hs : b.pager.Ready) (hf : b.flags = tableFlags)
    (hw : WellFormed b.pager b.rootPage leaves) (key : Int) : DeletesRow b leaves key := by
  obtain ⟨l, hl, found, t, hrun, hfound, hreads, hwrites, hleaf, hothers⟩ := delete_spec hs hf hw key
  refine ⟨found, t, _, hrun, ?_, hw.without hl hwrites hleaf hothers, ?_, ⟨l, hl, hwrites⟩, hreads⟩
  · rw [hfound, List.mem_flatMap]
    constructor
    · intro hk
      exact ⟨l, hl, hk⟩
    · intro h
      obtain ⟨l', hl', hk⟩ := h
      by_cases heq : l' = l
      · exact heq ▸ hk
      · exact absurd hk (hothers l' hl' heq).2
  · rw [List.flatMap_map, List.filter_flatMap]
    simp only [Leaf.keep_rows]

/-! ## Replacing a record -/

/-- A leaf with another record for a key that it has. -/
theorem LeafAt.update {s t : Pager} {l : Leaf} {old : Bytes} (hs : s.Ready) (hl : LeafAt s l)
    (ht : s.Reads t) (hsort : l.keys.Pairwise (· < ·)) (hrow : (key, old) ∈ l.rows)
    (hlen : record.length = old.length) :
    ∃ page t1 d' t2 l', Pager.getPage l.pgno t = .ok page t1 ∧
      updateCell page.data (pageHeaderOffset l.pgno) key record = .ok (some d') ∧
      Pager.writePage { page with data := d' } t1 = .ok () t2 ∧ Pager.Writes [l.pgno] s t2 ∧
      LeafAt t2 l' ∧ l'.pgno = l.pgno ∧ l'.keys = l.keys ∧ l'.rows = setRecord key record l.rows := by
  obtain ⟨hle, d, hd, hdlen, hpage⟩ := hl
  obtain ⟨page, t1, hget, hpg, rfl, ht1⟩ := ht.getPage hs hd
  have hnd : l.keys.Nodup := hsort.imp (fun {_ _} h => Int.ne_of_lt h)
  -- the cell of the key
  obtain ⟨c, hc, hval⟩ := List.mem_map.mp hrow
  have hck : c.key = key := congrArg Prod.fst hval
  have hcr : c.record = old := congrArg Prod.snd hval
  cases hi : l.cells.findIdx? fun c => decide (c.key = key) with
  | none =>
    have := List.findIdx?_eq_none_iff.mp hi c hc
    simp [hck] at this
  | some i =>
    obtain ⟨hlt, hki, -⟩ := List.findIdx?_eq_some_iff_getElem.mp hi
    have hki : l.cells[i].key = key := of_decide_eq_true hki
    have heq : l.cells[i] = c := by
      refine List.inj_on_of_nodup_map hnd (List.getElem_mem hlt) hc ?_
      rw [hki, hck]
    have hsame : record.length = l.cells[i].record.length := by rw [heq, hcr]; exact hlen
    obtain ⟨d', hupd, hlen', hpage'⟩ := hpage.update hi (List.getElem?_eq_getElem hlt) hsame
    obtain ⟨t2, hwrite, hw2, hv2, -⟩ := Pager.writePage_ready (ht1.ready hs) { page with data := d' }
    rw [hpg] at hw2 hv2
    have hall : Pager.Writes [l.pgno] s t2 := (ht1.writes hs).trans hw2
    refine ⟨page, t1, d', t2, { l with cells := l.cells.set i (l.cells[i].withRecord record) }, hget,
      hupd, hwrite, hall, ⟨Nat.le_trans hle hall.pageCount, d', hv2, ?_, hpage'⟩, rfl, ?_, ?_⟩
    · rw [hlen', hdlen, hall.pageSize]
    · refine List.ext_getElem (by simp [Leaf.keys]) fun j h1 h2 => ?_
      simp only [Leaf.keys, List.getElem_map, List.getElem_set]
      split
      · next hij =>
        subst hij
        rfl
      · rfl
    · rw [setRecord_eq_set (i := i) (by rw [Leaf.rows, List.map_map]; exact hnd)
        (by rw [Leaf.rows, List.map_map, List.getElem?_map, List.getElem?_eq_getElem hlt, ← hki]; rfl)]
      rw [Leaf.rows, Leaf.rows, List.map_set, ← hki]
      rfl

/-- The leaf of a key that is stored: the descents end there, and no other has it. -/
theorem WellFormed.leafOf (hs : b.pager.Ready) (hw : WellFormed b.pager b.rootPage leaves)
    (hkey : key ∈ leaves.flatMap (·.keys)) :
    ∃ pre l post t, leaves = pre ++ l :: post ∧ key ∈ l.keys ∧
      Route b.pager key (fuel b.pager) b.rootPage l ∧
      findLeafForKey key (fuel b.pager) b.rootPage b = .ok l.pgno { b with pager := t } ∧
      b.pager.Reads t ∧ (∀ x ∈ pre ++ post, key ∉ x.keys) ∧
      ∀ (s' : Pager) (l' : Leaf), Pager.Writes [l.pgno] b.pager s' → LeafAt s' l' →
        l'.pgno = l.pgno → l'.keys = l.keys → WellFormed s' b.rootPage (pre ++ l' :: post) := by
  obtain ⟨n, htree⟩ := hw.tree
  obtain ⟨l2, -, t, hrun, ht, hone⟩ := htree.height.route hs key b (Pager.Reads.refl _)
  obtain ⟨pre, l, post, rfl, hroute, hpre, hpost, hctx⟩ := hw.focus key
  have hothers : ∀ x ∈ pre ++ post, key ∉ x.keys := by
    intro x hx hk
    rcases List.mem_append.mp hx with hx | hx
    · exact Int.lt_irrefl key (hpre x hx key hk)
    · exact Int.lt_irrefl key (hpost x hx key hk)
  have hl : key ∈ l.keys := by
    obtain ⟨x, hx, hk⟩ := List.mem_flatMap.mp hkey
    rcases List.mem_append.mp hx with hx | hx
    · exact absurd hk (hothers x (List.mem_append_left _ hx))
    · rcases List.mem_cons.mp hx with rfl | hx
      · exact hk
      · exact absurd hk (hothers x (List.mem_append_right _ hx))
  have hmem : l ∈ pre ++ l :: post := List.mem_append_right _ List.mem_cons_self
  obtain rfl := hone l hmem hl
  refine ⟨pre, l, post, t, rfl, hl, hroute, hrun, ht, hothers, fun s' l' hw' hl' hpg hkeys => ?_⟩
  exact hctx s' l' hw' hl' hpg (by rw [hkeys]; exact hw.leaf_sorted l hmem)
    fun k hk => .inr (hkeys ▸ hk)

theorem replacesRow (hs : b.pager.Ready) (hf : b.flags = tableFlags)
    (hw : WellFormed b.pager b.rootPage leaves) {old : Bytes}
    (hrow : (key, old) ∈ leaves.flatMap (·.rows)) (hlen : record.length = old.length) :
    ReplacesRow b leaves key record := by
  have hkey : key ∈ leaves.flatMap (·.keys) := by
    rw [flatMap_keys]
    exact List.mem_map.mpr ⟨_, hrow, rfl⟩
  obtain ⟨pre, l, post, t, rfl, hk, -, hfind, ht, hothers, hctx⟩ := WellFormed.leafOf hs hw hkey
  have hmem : l ∈ pre ++ l :: post := List.mem_append_right _ List.mem_cons_self
  obtain ⟨n, htree⟩ := hw.tree
  have habsent : ∀ x ∈ pre ++ post, ∀ row ∈ x.rows, row.1 ≠ key := fun x hx row hr heq =>
    hothers x hx (List.mem_map.mpr (by
      obtain ⟨c, hc, rfl⟩ := List.mem_map.mp hr
      exact ⟨c, hc, heq⟩))
  have hrow' : (key, old) ∈ l.rows := by
    obtain ⟨x, hx, hr⟩ := List.mem_flatMap.mp hrow
    rcases List.mem_append.mp hx with hx | hx
    · exact absurd rfl (habsent x (List.mem_append_left _ hx) _ hr)
    · rcases List.mem_cons.mp hx with rfl | hx
      · exact hr
      · exact absurd rfl (habsent x (List.mem_append_right _ hx) _ hr)
  obtain ⟨page, t1, d', t2, l', hget, hupd, hwrite, hwrites, hl', hpg, hkeys, hrows⟩ :=
    LeafAt.update hs (htree.leafAt l hmem) ht (hw.leaf_sorted l hmem) hrow' hlen
  refine ⟨t2, pre ++ l' :: post, ?_, hctx t2 l' hwrites hl' hpg hkeys, ?_, l, hmem, hwrites⟩
  · have hg : onPager (Pager.getPage l.pgno) { b with pager := t } = .ok page { b with pager := t1 } :=
      zoom_ok hget
    have hput : onPager (Pager.writePage { page with data := d' }) { b with pager := t1 } =
        .ok () { b with pager := t2 } := zoom_ok hwrite
    have hupdate : updateTableRow key record b = .ok true { b with pager := t2 } := by
      rw [updateTableRow, bind_ok (get_apply b), bind_ok hfind, bind_ok hg, hupd,
        bind_ok (lift_ok _ _)]
      exact bind_ok hput _
    rw [replace, bind_ok (get_apply b), if_neg (by rw [hf]; decide), bind_ok hupdate]
    rfl
  · have hside : ∀ xs : List Leaf, (∀ x ∈ xs, x ∈ pre ++ post) →
        setRecord key record (xs.flatMap (·.rows)) = xs.flatMap (·.rows) := fun xs hxs =>
      setRecord_of_absent fun row hr => by
        obtain ⟨x, hx, hr⟩ := List.mem_flatMap.mp hr
        exact habsent x (hxs x hx) row hr
    have hpre := hside pre fun x hx => List.mem_append_left _ hx
    have hpost := hside post fun x hx => List.mem_append_right _ hx
    simp only [setRecord] at hpre hpost hrows ⊢
    simp only [List.flatMap_append, List.flatMap_cons, List.map_append, hpre, hpost, hrows]

/-! ## Inserting a key that is stored -/

theorem insertIntoLeafTable_duplicate {l : Leaf} (cell : Bytes) (hs : b.pager.Ready)
    (hl : LeafAt b.pager l) (hk : key ∈ l.keys) :
    ∃ t, b.pager.Reads t ∧ insertIntoLeafTable l.pgno cell key b =
      .error (.err (.sql .constraint "UNIQUE constraint failed")) { b with pager := t } := by
  obtain ⟨-, d, hd, -, hp⟩ := hl
  obtain ⟨page, t, hget, -, rfl, ht⟩ := onPager_getPage hs (Pager.Reads.refl b.pager) hd
  refine ⟨t, ht, ?_⟩
  have hyes : ∃ c ∈ l.cells, c.key = key := List.mem_map.mp hk
  rw [insertIntoLeafTable, bind_ok hget]
  change (lift (byteAt page.data (pageHeaderOffset l.pgno)) >>= _) _ = _
  rw [hp.byteAt, bind_ok (lift_ok _ _), if_neg (not_not.mpr rfl), hp.find key, if_pos hyes]
  rfl

theorem refusesRow_iff (hs : b.pager.Ready) (hf : b.flags = tableFlags)
    (hw : WellFormed b.pager b.rootPage leaves) (hkey : key ∈ leaves.flatMap (·.keys))
    (hr : record.length < 2 ^ 63) : RefusesRow b key record ↔ 0 ≤ key := by
  obtain ⟨pre, l, post, -, rfl, hk, hroute, -⟩ := WellFormed.leafOf hs hw hkey
  have hrun : insert key record b = insertTableRow key record b := insert_eq hf (key, record)
  have hrange : -2 ^ 63 ≤ key ∧ key < 2 ^ 63 := by
    obtain ⟨c, hc, rfl⟩ := List.mem_map.mp hk
    obtain ⟨-, d, -, -, hp⟩ := hroute.leafAt
    exact (hp.cell c hc).range
  obtain ⟨n, hn, -⟩ := writeVarint_total hr
  constructor
  · intro h
    obtain ⟨t, hfail, -⟩ := h
    by_contra hneg
    have hpanic : writeVarint (asU64 key) = panicked := writeVarint_panics (by unfold asU64; omega)
    rw [hrun, insertTableRow, buildTableCell, hpanic] at hfail
    cases hfail
  · intro hpos
    obtain ⟨kb, hkb, -⟩ := writeVarint_total (v := asU64 key) (by
      rw [asU64_of_nonneg hpos hrange.2]
      omega)
    have hb : buildTableCell key record = .ok (kb ++ (n ++ record)) := by
      rw [buildTableCell, hkb, Res.ok_bind, hn]
      rfl
    obtain ⟨t, ht, heq⟩ := hroute.insertIntoTree_eq (kb ++ (n ++ record)) hs (Pager.Reads.refl _)
    obtain ⟨t', ht', hdup⟩ := insertIntoLeafTable_duplicate (b := { b with pager := t })
      (kb ++ (n ++ record)) (ht.ready hs) (hroute.leafAt.writes (ht.writes hs) (by simp)) hk
    refine ⟨t', ?_, ht.trans ht'⟩
    rw [hrun, insertTableRow, hb, bind_ok (lift_ok _ _), bind_ok (get_apply b)]
    exact bind_error (heq _ hdup fun _ _ h => (by cases h)) _

/-! ## The three of them -/

/-- What `delete`, `replace` and `insert` do with a key of a tree. -/
structure RowOpsSound (b : Btree) (leaves : List Leaf) (key : Int) (record : Bytes) : Prop where
  delete : DeletesRow b leaves key
  replace : ∀ old, (key, old) ∈ leaves.flatMap (·.rows) → record.length = old.length →
    ReplacesRow b leaves key record
  insert : key ∈ leaves.flatMap (·.keys) → RefusesRow b key record

/-- Only `insert` of a negative key that is stored goes wrong. -/
theorem row_ops_iff (hs : b.pager.Ready) (hf : b.flags = tableFlags)
    (hw : WellFormed b.pager b.rootPage leaves) (key : Int) (hr : record.length < 2 ^ 63) :
    RowOpsSound b leaves key record ↔ (key ∈ leaves.flatMap (·.keys) → 0 ≤ key) := by
  constructor
  · intro h hkey
    exact (refusesRow_iff hs hf hw hkey hr).mp (h.insert hkey)
  · intro hpos
    exact ⟨deletesRow hs hf hw key, fun _ hrow hlen => replacesRow hs hf hw hrow hlen,
      fun hkey => (refusesRow_iff hs hf hw hkey hr).mpr (hpos hkey)⟩

end

theorem row_ops_iff_two :
    RowOpsSound twoLeaves [oneRowLeaf 2 1, oneRowLeaf 3 2] 2 [9] :=
  (row_ops_iff twoLeaves_ready rfl twoLeaves_wellFormed 2 (by decide)).mpr fun _ => by decide

/-! ### A negative key -/

/-- The key -129 as a varint of nine bytes, and a record of one byte. -/
def negativeCell : Bytes := [255, 255, 255, 255, 255, 255, 255, 255, 127, 1, 7]

def negativePage : Bytes :=
  image (rebuildLeafTablePage (blankPage PAGE_TYPE_LEAF_TABLE) 0 [(-129, negativeCell)])

def negativeLeaf : Leaf := ⟨2, 501, [⟨501, negativeCell, (-129, [7])⟩]⟩

theorem negativeCell_table : TableCell negativeCell (-129) [7] := by
  have hw : writeVarint (2 ^ 63 - 1) = .ok [255, 255, 255, 255, 255, 255, 255, 255, 127] := by
    decide +kernel
  obtain ⟨u, hu, -⟩ := writeVarint_isVarint hw
  have hread := hu.read (At.middle [] _ [])
  have hval : readVarint [255, 255, 255, 255, 255, 255, 255, 255, 127] 0 =
      .ok (2 ^ 64 - 129, 9) := by decide +kernel
  have heq : u = 2 ^ 64 - 129 := congrArg Prod.fst (Except.ok.inj (hread.symm.trans hval))
  exact ⟨_, [1], u, rfl, hu, by rw [heq]; decide, isVarint_writeVarint (by decide) rfl⟩

def negativeTree : Btree where
  pager := { newDatabase with
    cache := AList.singleton 2 { data := negativePage, dirty := true }, pageCount := 2 }
  rootPage := 2
  flags := tableFlags

theorem negativeTree_ready : negativeTree.pager.Ready := ⟨fun h => (by cases h), rfl, rfl⟩

theorem negativeTree_wellFormed : WellFormed negativeTree.pager 2 [negativeLeaf] := by
  obtain ⟨d, hrun, hlen, hp⟩ := leafPage_rebuild (d := blankPage PAGE_TYPE_LEAF_TABLE) (h := 0)
    [⟨0, negativeCell, (-129, [7])⟩] (by simp) (by simp) rfl
    (fun c hc => by rw [List.mem_singleton.mp hc]; exact negativeCell_table)
    (by rw [blankPage_length]; decide)
  have himg : negativePage = d := congrArg image hrun
  have hlookup : negativeTree.pager.cache.lookup 2 = some ⟨negativePage, true⟩ :=
    List.dlookup_cons_eq _ _ _
  have hview : negativeTree.pager.view 2 = .ok negativePage := by rw [Pager.view_eq, hlookup]
  rw [blankPage_length] at hlen hp
  refine WellFormed.of_leaf (l := negativeLeaf) ⟨by decide, d, himg ▸ hview, hlen, ?_⟩ (by decide)
  exact hp

/-- The machine stops before it looks for the key. -/
theorem insert_panics_on_negative : negativeTree.pager.Ready ∧ negativeTree.flags = tableFlags ∧
    WellFormed negativeTree.pager negativeTree.rootPage [negativeLeaf] ∧
    outcome (insert (-129) [7]) negativeTree = .error .panic ∧
    ¬ RowOpsSound negativeTree [negativeLeaf] (-129) [7] := by
  refine ⟨negativeTree_ready, rfl, negativeTree_wellFormed, by rfl, fun h => ?_⟩
  have hpos := (refusesRow_iff negativeTree_ready rfl negativeTree_wellFormed (by decide)
    (by decide)).mp (h.insert (by decide))
  exact absurd hpos (by decide)

end Btree

end Sqllite
