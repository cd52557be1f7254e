import Mathlib.Algebra.Order.BigOperators.Group.List
import Sqllite.L2Storage.Delete
import Sqllite.L2Storage.InsertSpec

/-!
# Runs of insertions

`Sound` is what insertions keep: a well-formed tree whose cells are the bytes
`build_table_cell` makes. It is kept where the leaf a key belongs to takes the
row, and where that leaf is the root and its halves fit two pages.

* `Btree.insertTableRow_spec`: one insertion.
* `Btree.inserts_scan`: a scan after a run of them yields the inserted rows.
* `Btree.inserts_lose_rows`: a run in which a leaf other than the root is split.
-/
namespace Sqllite
open Lib Lib.Run Lib.Span Lib.Slotted

/-! ## A leaf in its tree -/

/-- A well-formed tree around the leaf a key belongs to, which another leaf with
that key can replace. -/
theorem WellFormed.focus {s : Pager} {root : Nat} {leaves : List Leaf}
    (h : WellFormed s root leaves) (key : Int) :
    ∃ pre l post, leaves = pre ++ l :: post ∧ Route s key (Btree.fuel s) root l ∧
      (∀ x ∈ pre, ∀ k ∈ x.keys, k < key) ∧ (∀ x ∈ post, ∀ k ∈ x.keys, key < k) ∧
      ∀ (s' : Pager) (l' : Leaf), Pager.Writes [l.pgno] s s' → LeafAt s' l' → l'.pgno = l.pgno →
        l'.keys.Pairwise (· < ·) → (∀ k ∈ l'.keys, k = key ∨ k ∈ l.keys) →
        WellFormed s' root (pre ++ l' :: post) := by
  obtain ⟨n, htree⟩ := h.tree
  obtain ⟨pre, l, post, rfl, hroute, hpre, hpost, hctx⟩ := htree.height.focus key
  refine ⟨pre, l, post, rfl, hroute, hpre, hpost, fun s' l' hw hl' hpg hsorted hkeys => ?_⟩
  have hdist := h.distinct
  have hsort := h.sorted
  rw [List.map_append, List.map_cons] at hdist
  rw [List.flatMap_append, List.flatMap_cons] at hsort
  obtain ⟨hs1, hs2, hs3⟩ := List.pairwise_append.mp hsort
  obtain ⟨-, hs5, hs6⟩ := List.pairwise_append.mp hs2
  refine ⟨⟨_, hctx s' l' (fun p cells right hint => hint.writes hw ?_) (fun x hx => ?_) hl' hpg
    hkeys⟩, ?_, ?_⟩
  · intro hp
    rw [List.mem_singleton] at hp
    exact hroute.leafAt.not_interior (hp ▸ hint)
  · have hne : x.pgno ≠ l.pgno := by
      obtain ⟨-, hd2, hd3⟩ := List.nodup_append.mp hdist
      rcases List.mem_append.mp hx with hx | hx
      · exact hd3 _ (List.mem_map_of_mem hx) _ List.mem_cons_self
      · intro heq
        exact (List.nodup_cons.mp hd2).1 (heq ▸ List.mem_map_of_mem hx)
    refine (htree.leafAt x ?_).writes hw (by simpa using hne)
    rcases List.mem_append.mp hx with hx | hx <;> simp [hx]
  · rw [List.map_append, List.map_cons, hpg]
    exact hdist
  · rw [List.flatMap_append, List.flatMap_cons]
    refine List.pairwise_append.mpr ⟨hs1, List.pairwise_append.mpr ⟨hsorted, hs5, ?_⟩, ?_⟩
    · intro a ha b hb
      rcases hkeys a ha with rfl | ha
      · obtain ⟨x, hx, hb⟩ := List.mem_flatMap.mp hb
        exact hpost x hx b hb
      · exact hs6 a ha b hb
    · intro a ha b hb
      rcases List.mem_append.mp hb with hb | hb
      · rcases hkeys b hb with rfl | hb
        · obtain ⟨x, hx, ha⟩ := List.mem_flatMap.mp ha
          exact hpre x hx a ha
        · exact hs3 a ha b (List.mem_append_left _ hb)
      · exact hs3 a ha b (List.mem_append_right _ hb)

/-- A tree whose root is a leaf. -/
theorem WellFormed.of_leaf {s : Pager} {l : Leaf} (hl : LeafAt s l)
    (hsorted : l.keys.Pairwise (· < ·)) : WellFormed s l.pgno [l] :=
  ⟨⟨1, .inl ⟨l, rfl, hl, rfl⟩⟩, List.nodup_singleton _, by simpa using hsorted⟩

/-- A tree with a leaf at its root has no other. -/
theorem WellFormed.eq_of_leaf {s : Pager} {root : Nat} {leaves : List Leaf}
    (h : WellFormed s root leaves) {l : Leaf} (hl : l ∈ leaves) (hroot : l.pgno = root) :
    leaves = [l] := by
  obtain ⟨n, htree⟩ := h.tree
  have hleaf := htree.leafAt l hl
  cases n with
  | zero => exact htree.elim
  | succ n =>
    rcases htree with ⟨l', -, -, rfl⟩ | ⟨cells, right, parts, hint, -⟩
    · rw [List.mem_singleton.mp hl]
    · exact (hleaf.not_interior (hroot ▸ hint)).elim

/-! ## Cells in order -/

theorem Leaf.insert_perm (l : Leaf) (bytes : Bytes) (row : Row) :
    (l.insert bytes row).cells.Perm (⟨l.start - bytes.length, bytes, row⟩ :: l.cells) :=
  List.perm_insertIdx _ _ (insertPos_le _ _)

theorem Leaf.insert_sorted {l : Leaf} {row : Row} (bytes : Bytes) (h : l.keys.Pairwise (· < ·))
    (hno : row.1 ∉ l.keys) : (l.insert bytes row).keys.Pairwise (· < ·) :=
  insertIdx_sorted ⟨l.start - bytes.length, bytes, row⟩ h hno

@[simp] theorem Leaf.fresh_keys (pgno size : Nat) (cells : List LeafCell) :
    (Leaf.fresh pgno size cells).keys = cells.map (·.key) :=
  placed_map size (fun _ _ => rfl) cells

@[simp] theorem Leaf.fresh_rows (pgno size : Nat) (cells : List LeafCell) :
    (Leaf.fresh pgno size cells).rows = cells.map (·.val) :=
  placed_map size (fun _ _ => rfl) cells

/-! ## The descent of an insertion -/

section
variable {s : Pager} (cell : Bytes) {n p : Nat} {l : Leaf}

/-- What comes of the leaf comes of the tree, unless the leaf was split. -/
theorem Route.insertIntoTree_eq {key : Int} (hs : s.Ready) (hr : Route s key n p l) {b : Btree}
    (hb : s.Reads b.pager) :
    ∃ t, s.Reads t ∧ ∀ r, Btree.insertIntoLeafTable l.pgno cell key { b with pager := t } = r →
      (∀ split b', r ≠ .ok (some split) b') → Btree.insertIntoTree cell key n p b = r := by
  induction hr generalizing b with
  | leaf hl =>
    obtain ⟨-, d, hd, -, hpage⟩ := hl
    obtain ⟨page, t, hg, -, rfl, ht⟩ := onPager_getPage hs hb hd
    refine ⟨t, ht, fun r hrun _ => ?_⟩
    rw [Btree.insertIntoTree, bind_ok hg]
    simp only
    rw [hpage.byteAt, bind_ok (lift_ok _ _), if_pos rfl]
    exact hrun
  | node hint hchild _ ih =>
    obtain ⟨-, d, hd, -, hpage⟩ := hint
    obtain ⟨page, t, hg, -, rfl, ht⟩ := onPager_getPage hs hb hd
    obtain ⟨child, hc, hfind⟩ := hpage.findChild key
    cases hc.symm.trans hchild
    obtain ⟨t', ht', heq⟩ := ih (b := { b with pager := t }) ht
    refine ⟨t', ht', fun r hrun hnone => ?_⟩
    have hchild := heq r hrun hnone
    rw [Btree.insertIntoTree, bind_ok hg]
    simp only
    rw [hpage.byteAt, bind_ok (lift_ok _ _), if_neg (by decide), if_pos rfl, hfind,
      bind_ok (lift_ok _ _)]
    cases r with
    | ok split b' =>
      cases split with
      | none => exact bind_ok hchild _
      | some split => exact absurd rfl (hnone split b')
    | error e b' => exact bind_error hchild _

/-- Where the leaf takes the cell, nothing is passed up. -/
theorem Route.insertIntoTree {key : Int} (hs : s.Ready) {Q : Pager → Prop} (hr : Route s key n p l) {b : Btree}
    (hb : s.Reads b.pager)
    (hleaf : ∀ t, s.Reads t → ∃ t', Btree.insertIntoLeafTable l.pgno cell key { b with pager := t } =
      .ok none { b with pager := t' } ∧ Q t') :
    ∃ t', Btree.insertIntoTree cell key n p b = .ok none { b with pager := t' } ∧ Q t' := by
  obtain ⟨t, ht, heq⟩ := hr.insertIntoTree_eq cell hs hb
  obtain ⟨t', hrun, hq⟩ := hleaf t ht
  exact ⟨t', heq _ hrun fun _ _ h => (by cases h), hq⟩

/-- At a root that is a leaf the descent is over. -/
theorem LeafAt.insertIntoTree (key : Int) (n : Nat) (hs : s.Ready) (hl : LeafAt s l) {b : Btree} (hb : s.Reads b.pager) :
    ∃ t, s.Reads t ∧ Btree.insertIntoTree cell key (n + 1) l.pgno b =
      Btree.insertIntoLeafTable l.pgno cell key { b with pager := t } := by
  obtain ⟨-, d, hd, -, hpage⟩ := hl
  obtain ⟨page, t, hg, -, rfl, ht⟩ := onPager_getPage hs hb hd
  refine ⟨t, ht, ?_⟩
  rw [Btree.insertIntoTree, bind_ok hg]
  simp only
  rw [hpage.byteAt, bind_ok (lift_ok _ _), if_pos rfl]

end

/-! ## One insertion -/

theorem buildTableCell_total {key : Int} {record : Bytes} (hk : KeyOk key)
    (hr : record.length < 2 ^ 63) :
    ∃ bytes, buildTableCell key record = .ok bytes ∧ record.length ≤ bytes.length := by
  have hlt : asU64 key < 2 ^ 63 := by
    have := hk.1
    have := hk.2
    unfold asU64
    omega
  obtain ⟨kb, hkb, -⟩ := writeVarint_total hlt
  obtain ⟨lb, hlb, -⟩ := writeVarint_total hr
  refine ⟨kb ++ (lb ++ record), ?_, by simp only [List.length_append]; omega⟩
  rw [buildTableCell, hkb, Res.ok_bind, hlb]
  rfl

theorem length_le_leafSize {c : LeafCell} {cells : List LeafCell} (hc : c ∈ cells) :
    c.bytes.length ≤ leafSize cells := by
  have hle : c.bytes.length ≤ total (cells.map (·.bytes)) := by
    rw [total, List.map_map]
    exact List.le_sum_of_mem (List.mem_map_of_mem (f := List.length ∘ fun c : LeafCell => c.bytes) hc)
  unfold leafSize
  omega

/-- A table B-tree whose cells are those it builds itself. -/
structure Sound (b : Btree) (leaves : List Leaf) : Prop where
  ready : b.pager.Ready
  size : SizeOk b.pager
  flags : b.flags = tableFlags
  pages : 1 ≤ b.pager.pageCount
  tree : WellFormed b.pager b.rootPage leaves
  built : ∀ l ∈ leaves, ∀ c ∈ l.cells,
    KeyOk c.key ∧ buildTableCell c.key c.record = .ok c.bytes

/-- The leaf has room for the row, or it is the root and can be split for it. -/
def Leaf.Takes (l : Leaf) (b : Btree) (bytes : Bytes) (row : Row) : Prop :=
  l.Room bytes.length ∨ (l.pgno = b.rootPage ∧ l.cells ≠ [] ∧
    l.HalvesFit b.pager.pageSize bytes row ∧ b.pager.pageCount + 2 < 2 ^ 32)

/-- A cell that a leaf takes is shorter than its page. -/
theorem Leaf.Takes.length_lt {b : Btree} {l : Leaf} {bytes : Bytes} {row : Row}
    (h : l.Takes b bytes row) (hl : LeafAt b.pager l) (hs : SizeOk b.pager) :
    bytes.length < 65536 := by
  have hsize := hs.2
  rcases h with hroom | ⟨-, -, ⟨hlow, hupp⟩, -⟩
  · obtain ⟨-, d, -, -, hpage⟩ := hl
    have hstart := hpage.holds.start_le
    rw [Leaf.Room] at hroom
    omega
  · have hmem : (⟨0, bytes, row⟩ : LeafCell) ∈ l.cellsWith bytes row := Leaf.mem_cellsWith.mpr (.inr rfl)
    rw [← Leaf.lower_append_upper] at hmem
    rcases List.mem_append.mp hmem with hmem | hmem
    · have := length_le_leafSize hmem
      simp only at this
      omega
    · have := length_le_leafSize hmem
      simp only at this
      omega

/-- Only the last leaf of a scan may be empty. -/
def NoGaps (leaves : List Leaf) : Prop := leaves.length = 1 ∨ ∀ l ∈ leaves, l.cells ≠ []

/-- The root is the only leaf, or stands above two leaves; the divider between them is a
key of the first. -/
def Parted (b : Btree) (leaves : List Leaf) : Prop :=
  (∃ l, leaves = [l] ∧ l.pgno = b.rootPage) ∨
    ∃ l l' cell, leaves = [l, l'] ∧ InteriorAt b.pager b.rootPage [cell] l'.pgno ∧
      cell.child = l.pgno ∧ cell.key ∈ l.keys

/-- What an insertion leaves. -/
structure Inserted (b : Btree) (leaves : List Leaf) (row : Row) (b' : Btree)
    (leaves' : List Leaf) : Prop where
  sound : Sound b' leaves'
  rows : (leaves'.flatMap (·.rows)).Perm (row :: leaves.flatMap (·.rows))
  pageSize : b'.pager.pageSize = b.pager.pageSize
  gaps : NoGaps leaves → NoGaps leaves'

namespace Btree

section
variable {b : Btree} {leaves : List Leaf} {bytes record : Bytes} {key : Int}

theorem insertTableRow_room {pre post : List Leaf} {l : Leaf}
    (h : Sound b (pre ++ l :: post)) (hk : KeyOk key)
    (hb : buildTableCell key record = .ok bytes) (hcell : TableCell bytes key record)
    (habs : key ∉ l.keys) (hroute : Route b.pager key (fuel b.pager) b.rootPage l)
    (hctx : ∀ (s' : Pager) (l' : Leaf), Pager.Writes [l.pgno] b.pager s' → LeafAt s' l' →
      l'.pgno = l.pgno → l'.keys.Pairwise (· < ·) → (∀ k ∈ l'.keys, k = key ∨ k ∈ l.keys) →
      WellFormed s' b.rootPage (pre ++ l' :: post))
    (hroom : l.Room bytes.length) :
    ∃ t, insertTableRow key record b = .ok () { b with pager := t } ∧
      Pager.Writes [l.pgno] b.pager t ∧
      Inserted b (pre ++ l :: post) (key, record) { b with pager := t }
        (pre ++ l.insert bytes (key, record) :: post) := by
  have hl : l ∈ pre ++ l :: post := List.mem_append_right _ List.mem_cons_self
  -- the descent reads pages, the leaf is written
  obtain ⟨t, hrun, hw, hpc, hleaf⟩ := hroute.insertIntoTree bytes h.ready
    (Q := fun t => Pager.Writes [l.pgno] b.pager t ∧ t.pageCount = b.pager.pageCount ∧
      LeafAt t (l.insert bytes (key, record))) (b := b) (Pager.Reads.refl _) fun t ht => by
    obtain ⟨t', h1, h2, h3, h4⟩ := insertLeaf_room (b := { b with pager := t }) (ht.ready h.ready)
      (h.size.writes (ht.writes h.ready)) (hroute.leafAt.writes (ht.writes h.ready) (by simp)) hcell habs hroom
    exact ⟨t', h1, (ht.writes h.ready).trans h2, h3.trans ht.pageCount, h4⟩
  have hperm := l.insert_perm bytes (key, record)
  have hrows : (l.insert bytes (key, record)).rows.Perm ((key, record) :: l.rows) :=
    hperm.map fun c : LeafCell => c.val
  refine ⟨t, ?_, hw, ?_, ?_, hw.pageSize, ?_⟩
  · rw [insertTableRow, hb, bind_ok (lift_ok _ _), bind_ok (get_apply _), bind_ok hrun]
    rfl
  · refine ⟨hw.ready, h.size.writes hw, h.flags, hpc ▸ h.pages, ?_, fun x hx c hc => ?_⟩
    · refine hctx t _ hw hleaf rfl (Leaf.insert_sorted bytes (h.tree.leaf_sorted l hl) habs) ?_
      intro k hk
      exact List.mem_cons.mp ((hperm.map (·.key)).mem_iff.mp hk)
    · rcases List.mem_append.mp hx with hx | hx
      · exact h.built x (List.mem_append_left _ hx) c hc
      · rcases List.mem_cons.mp hx with rfl | hx
        · rcases List.mem_cons.mp (hperm.mem_iff.mp hc) with rfl | hc
          · exact ⟨hk, hb⟩
          · exact h.built l hl c hc
        · exact h.built x (List.mem_append_right _ (List.mem_cons_of_mem _ hx)) c hc
  · simp only [List.flatMap_append, List.flatMap_cons]
    exact ((hrows.append_right _).append_left _).trans List.perm_middle
  · rintro (h1 | hne)
    · refine .inl ?_
      simpa using h1
    · refine .inr fun x hx => ?_
      rcases List.mem_append.mp hx with hx | hx
      · exact hne x (List.mem_append_left _ hx)
      · rcases List.mem_cons.mp hx with rfl | hx
        · exact fun hnil => by simpa [hnil] using hperm.length_eq
        · exact hne x (List.mem_append_right _ (List.mem_cons_of_mem _ hx))

/-- The tree after a root that was a leaf has been split. -/
theorem wellFormed_halves {s : Pager} {root ptr : Nat} {l l' : Leaf} {cellBytes : Bytes}
    (divider : Int) (hint : InteriorAt s root [⟨ptr, cellBytes, (l.pgno, divider)⟩] l'.pgno)
    (hl : LeafAt s l) (hl' : LeafAt s l') (hne : l.pgno ≠ l'.pgno)
    (hsorted : (l.keys ++ l'.keys).Pairwise (· < ·)) (hlow : ∀ k ∈ l.keys, k ≤ divider)
    (hhigh : ∀ k ∈ l'.keys, divider < k) : WellFormed s root [l, l'] := by
  refine ⟨⟨2, .inr ⟨_, _, [[l], [l']], hint, ?_, ?_, rfl⟩⟩, by simpa using hne, by simpa using hsorted⟩
  · exact .cons (.inl ⟨l, rfl, hl, rfl⟩) (.cons (.inl ⟨l', rfl, hl', rfl⟩) .nil)
  · intro i part hi x hx k hk
    rcases i with _ | _ | i
    · cases hi
      rw [List.mem_singleton.mp hx] at hk
      have := hlow k hk
      simp [slotFor, List.findIdx_cons, InteriorCell.key, this]
    · cases hi
      rw [List.mem_singleton.mp hx] at hk
      have := Int.not_le.mpr (hhigh k hk)
      simp [slotFor, List.findIdx_cons, InteriorCell.key, this]
    · cases hi

theorem insertTableRow_split {l : Leaf} (h : Sound b [l]) (hroot : l.pgno = b.rootPage)
    (hk : KeyOk key) (hb : buildTableCell key record = .ok bytes)
    (hcell : TableCell bytes key record) (habs : key ∉ l.keys) (hfull : ¬ l.Room bytes.length)
    (hne : l.cells ≠ []) (hfit : l.HalvesFit b.pager.pageSize bytes (key, record))
    (hn : b.pager.pageCount + 2 < 2 ^ 32) :
    ∃ b' leaves', insertTableRow key record b = .ok () b' ∧
      Inserted b [l] (key, record) b' leaves' ∧ Parted b' leaves' := by
  have hmem : l ∈ [l] := List.mem_singleton_self l
  obtain ⟨n, htree⟩ := h.tree.tree
  have hl := htree.leafAt l hmem
  have hpg : l.pgno ≤ b.pager.pageCount := hl.1
  have hsort := sortCells_sorted ⟨0, bytes, (key, record)⟩ (h.tree.leaf_sorted l hmem) habs
  change ((l.cellsWith bytes (key, record)).map (·.key)).Pairwise (· < ·) at hsort
  have hok : ∀ c ∈ l.cellsWith bytes (key, record),
      KeyOk c.key ∧ buildTableCell c.key c.record = .ok c.bytes := fun c hc => by
    rcases Leaf.mem_cellsWith.mp hc with hc | rfl
    · exact h.built l hmem c hc
    · exact ⟨hk, hb⟩
  -- the leaf is split, then the new root stands above the halves
  obtain ⟨t, ht, hdesc⟩ := hl.insertIntoTree bytes key b.pager.pageCount h.ready (b := b) (Pager.Reads.refl _)
  obtain ⟨t1, divider, hdiv, hrun1, hw1, hpc1, hlow, hupp⟩ := insertLeaf_split
    (b := { b with pager := t }) (ht.ready h.ready) (h.size.writes (ht.writes h.ready))
    (hl.writes (ht.writes h.ready) (by simp)) hcell (fun c hc => (h.built l hmem c hc).2) habs hfull
    hne (by rw [ht.pageSize]; exact hfit) (by rw [ht.pageCount]; exact h.pages)
    (by rw [ht.pageCount]; omega)
  simp only [ht.pageCount, ht.pageSize] at hrun1 hw1 hpc1 hlow hupp
  have hw1 : Pager.Writes [b.pager.pageCount + 1, l.pgno] b.pager t1 := (ht.writes h.ready).trans hw1
  have hdmem : divider ∈ l.lower bytes (key, record) := List.mem_of_getLast? hdiv
  obtain ⟨t2, ptr, cellBytes, hrun2, hw2, hpc2, hint⟩ := promote_spec
    (b := { b with pager := t1 }) hw1.ready (h.size.writes hw1) h.flags divider.key
    (b.pager.pageCount + 1) (hok divider (List.mem_of_mem_take hdmem)).1
    (by simp only; omega) (by omega) (by simp only; omega) (by simp only; omega)
  simp only [hpc1] at hrun2 hw2 hpc2 hint
  have hall : Pager.Writes [b.pager.pageCount + 1, l.pgno, b.pager.pageCount + 1 + 1] b.pager t2 :=
    hw1.trans hw2
  rw [← Leaf.lower_append_upper, List.map_append] at hsort
  obtain ⟨hs1, -, hs3⟩ := List.pairwise_append.mp hsort
  have hrows : ((l.lower bytes (key, record)).map (·.val) ++
      (l.upper bytes (key, record)).map (·.val)).Perm ((key, record) :: l.rows) := by
    rw [← List.map_append, Leaf.lower_append_upper]
    have hp : (l.cellsWith bytes (key, record)).Perm (l.cells ++ [⟨0, bytes, (key, record)⟩]) :=
      List.perm_insertionSort _ _
    exact (hp.trans List.perm_append_comm).map fun c : LeafCell => c.val
  refine ⟨{ b with pager := t2, rootPage := b.pager.pageCount + 1 + 1 },
    [.fresh l.pgno b.pager.pageSize (l.lower bytes (key, record)),
     .fresh (b.pager.pageCount + 1) b.pager.pageSize (l.upper bytes (key, record))], ?_, ⟨?_, ?_,
    hall.pageSize, ?_⟩, .inr ⟨_, _, _, rfl, hint, hroot.symm, ?_⟩⟩
  · rw [insertTableRow, hb, bind_ok (lift_ok _ _), bind_ok (get_apply _), ← hroot]
    refine (bind_ok (hdesc.trans hrun1) _).trans ?_
    simp only
    rw [bind_ok (get_apply _), if_pos hroot, hroot]
    exact hrun2
  · refine ⟨hall.ready, h.size.writes hall, h.flags, by simp only; omega,
      wellFormed_halves divider.key (hroot ▸ hint) (hlow.writes hw2 ?_)
        (hupp.writes hw2 ?_) ?_ ?_ ?_ ?_, ?_⟩
    · simp only [Leaf.fresh, List.mem_singleton]; omega
    · simp only [Leaf.fresh, List.mem_singleton]; omega
    · simp only [Leaf.fresh]; omega
    · rw [Leaf.fresh_keys, Leaf.fresh_keys]
      exact hsort
    · rw [Leaf.fresh_keys]
      intro k hk'
      rw [← List.dropLast_append_getLast? _ hdiv, List.map_append] at hk' hs1
      obtain ⟨-, -, hs⟩ := List.pairwise_append.mp hs1
      rcases List.mem_append.mp hk' with hk' | hk'
      · exact Int.le_of_lt (hs k hk' _ (List.mem_singleton_self _))
      · exact Int.le_of_eq (List.mem_singleton.mp hk')
    · rw [Leaf.fresh_keys]
      exact fun k hk' => hs3 _ (List.mem_map_of_mem hdmem) k hk'
    · intro x hx c hc
      have hplaced : ∀ {cells : List LeafCell}, (∀ c ∈ cells, c ∈ l.cellsWith bytes (key, record)) →
          c ∈ placed b.pager.pageSize cells →
          KeyOk c.key ∧ buildTableCell c.key c.record = .ok c.bytes := fun hsub hc => by
        obtain ⟨c', hc', heq⟩ := mem_placed hc
        rw [heq]
        exact hok c' (hsub c' hc')
      rcases List.mem_cons.mp hx with rfl | hx
      · exact hplaced (fun c hc => List.mem_of_mem_take hc) hc
      · rw [List.mem_singleton.mp hx] at hc
        exact hplaced (fun c hc => List.mem_of_mem_drop hc) hc
  · simpa using hrows
  · intro _
    have hlen := l.cellsWith_length bytes (key, record)
    have hpos := List.length_pos_iff.mpr hne
    refine .inr fun x hx => List.length_pos_iff.mp ?_
    rcases List.mem_cons.mp hx with rfl | hx
    · simp only [Leaf.fresh, placed_length, Leaf.lower, List.length_take]; omega
    · rw [List.mem_singleton.mp hx]
      simp only [Leaf.fresh, placed_length, Leaf.upper, List.length_drop]; omega
  · rw [Leaf.fresh_keys]
    exact List.mem_map_of_mem hdmem

end

/-- The leaf that the key of the row leads to takes the row. -/
def Fits (b : Btree) (row : Row) : Prop :=
  ∀ n l bytes, Route b.pager row.1 n b.rootPage l → buildTableCell row.1 row.2 = .ok bytes →
    l.Takes b bytes row

/-- A leaf that takes a row keeps its place beside the divider. -/
theorem Parted.insert {b : Btree} {pre post : List Leaf} {l : Leaf} {bytes : Bytes} {row : Row}
    {t : Pager} (h : Parted b (pre ++ l :: post)) (hl : LeafAt b.pager l)
    (hw : Pager.Writes [l.pgno] b.pager t) :
    Parted { b with pager := t } (pre ++ l.insert bytes row :: post) := by
  have hsub : ∀ key ∈ l.keys, key ∈ (l.insert bytes row).keys := fun key hk =>
    ((l.insert_perm bytes row).map (·.key)).mem_iff.mpr (List.mem_cons_of_mem _ hk)
  rcases h with ⟨x, hleaves, hroot⟩ | ⟨x, y, cell, hleaves, hint, hchild, hkey⟩
  · rcases pre with _ | ⟨a, pre⟩
    · obtain ⟨rfl, rfl⟩ := List.cons.inj hleaves
      exact .inl ⟨_, rfl, hroot⟩
    · have hlen := congrArg List.length hleaves
      simp at hlen
  · have hint' : InteriorAt t b.rootPage [cell] y.pgno := hint.writes hw fun hp => by
      rw [List.mem_singleton] at hp
      exact hl.not_interior (hp ▸ hint)
    rcases pre with _ | ⟨a, _ | ⟨a', pre⟩⟩
    · obtain ⟨rfl, rfl⟩ := List.cons.inj hleaves
      exact .inr ⟨_, y, cell, rfl, hint', hchild, hsub _ hkey⟩
    · obtain ⟨rfl, hrest⟩ := List.cons.inj hleaves
      obtain ⟨rfl, rfl⟩ := List.cons.inj hrest
      exact .inr ⟨_, _, cell, rfl, hint', hchild, hkey⟩
    · have hlen := congrArg List.length hleaves
      simp at hlen

theorem insertTableRow_spec {b : Btree} {leaves : List Leaf} (h : Sound b leaves) {row : Row}
    (hk : KeyOk row.1) (hr : row.2.length < 2 ^ 63) (habs : row.1 ∉ leaves.flatMap (·.keys))
    (hfit : Fits b row) :
    ∃ b' leaves', insertTableRow row.1 row.2 b = .ok () b' ∧ Inserted b leaves row b' leaves' ∧
      (Parted b leaves → Parted b' leaves') := by
  obtain ⟨key, record⟩ := row
  obtain ⟨pre, l, post, rfl, hroute, -, -, hctx⟩ := h.tree.focus key
  have hl : l ∈ pre ++ l :: post := List.mem_append_right _ List.mem_cons_self
  have habs : key ∉ l.keys := fun hk' => habs (List.mem_flatMap.mpr ⟨l, hl, hk'⟩)
  -- what fits a leaf is short enough for its length to be read again
  obtain ⟨bytes', hb', hlen⟩ := buildTableCell_total hk hr
  have hlt := (hfit _ l bytes' hroute hb').length_lt hroute.leafAt h.size
  obtain ⟨bytes, hb, hcell, -⟩ := buildTableCell_ok record (show KeyOk key from hk) (by simp only at hlen; omega)
  by_cases hroom : l.Room bytes.length
  · obtain ⟨t, hrun, hw, hins⟩ := insertTableRow_room h hk hb hcell habs hroute hctx hroom
    exact ⟨_, _, hrun, hins, fun hp => Parted.insert hp hroute.leafAt hw⟩
  · rcases hfit _ l bytes hroute hb with hroom' | ⟨hroot, hne, hhalves, hn⟩
    · exact absurd hroom' hroom
    · have heq := h.tree.eq_of_leaf hl hroot
      rw [heq] at h ⊢
      obtain ⟨b', leaves', hrun, hins, hparted⟩ :=
        insertTableRow_split h hroot hk hb hcell habs hroom hne hhalves hn
      exact ⟨b', leaves', hrun, hins, fun _ => hparted⟩

/-! ## Runs of insertions -/

/-- `insert` of one row after another. -/
def inserts (rows : List Row) : BtreeM Unit := forEach (fun row => insert row.1 row.2) rows

/-- Every row of the run fits where it comes. -/
def InsertsFit : Btree → List Row → Prop
  | _, [] => True
  | b, row :: rows => Fits b row ∧ ∀ b', insert row.1 row.2 b = .ok () b' → InsertsFit b' rows

theorem insert_eq {b : Btree} (hf : b.flags = tableFlags) (row : Row) :
    insert row.1 row.2 b = insertTableRow row.1 row.2 b := by
  rw [insert, bind_ok (get_apply _), if_neg (by rw [hf]; decide)]

/-- Insertions add their rows to the leaves. -/
theorem inserts_spec : ∀ (rows : List Row) {b : Btree} {leaves : List Leaf}, Sound b leaves →
    NoGaps leaves → (∀ row ∈ rows, KeyOk row.1 ∧ row.2.length < 2 ^ 63) →
    ((rows ++ leaves.flatMap (·.rows)).map (·.1)).Nodup → InsertsFit b rows →
    ∃ b' leaves', inserts rows b = .ok () b' ∧ Sound b' leaves' ∧ NoGaps leaves' ∧
      (leaves'.flatMap (·.rows)).Perm (rows ++ leaves.flatMap (·.rows)) ∧
      (Parted b leaves → Parted b' leaves')
  | [], b, leaves, h, hg, _, _, _ => ⟨b, leaves, rfl, h, hg, List.Perm.refl _, id⟩
  | row :: rows, b, leaves, h, hg, hok, hnd, hfit => by
    obtain ⟨hk, hr⟩ := hok row List.mem_cons_self
    have habs : row.1 ∉ leaves.flatMap (·.keys) := by
      rw [List.cons_append, List.map_cons, List.nodup_cons, List.map_append] at hnd
      rw [flatMap_keys]
      exact fun hmem => hnd.1 (List.mem_append_right _ hmem)
    obtain ⟨b1, leaves1, hrun1, hins, hparted⟩ := insertTableRow_spec h hk hr habs hfit.1
    rw [← insert_eq h.flags] at hrun1
    have hperm : (rows ++ leaves1.flatMap (·.rows)).Perm
        (row :: rows ++ leaves.flatMap (·.rows)) :=
      (hins.rows.append_left rows).trans List.perm_middle
    obtain ⟨b', leaves', hrun, hsound, hgaps, hrows, hparted'⟩ := inserts_spec rows hins.sound
      (hins.gaps hg) (fun r hr => hok r (List.mem_cons_of_mem _ hr))
      ((hperm.map _).nodup_iff.mpr hnd) (hfit.2 b1 hrun1)
    exact ⟨b', leaves', (bind_ok hrun1 _).trans hrun, hsound, hgaps, hrows.trans hperm,
      fun hp => hparted' (hparted hp)⟩

/-- A table that was just created. -/
theorem createTable_sound {s s' : Pager} {root : Nat} (hs : s.Ready) (hsize : SizeOk s)
    (hc : createTable s = .ok root s') :
    Sound ⟨s', root, tableFlags⟩ [⟨root, s.pageSize, []⟩] ∧ s'.pageSize = s.pageSize := by
  obtain ⟨pgno, s1, halloc, hrest⟩ := bind_eq_ok.mp hc
  have hn : s.pageCount + 1 < 2 ^ 32 := by
    by_contra hge
    rw [Pager.allocatePage, bind_ok (get_apply s), if_neg hge] at halloc
    cases halloc
  obtain ⟨t1, h1, hw1, -, hpc1⟩ := Pager.allocatePage_ready hs hn
  obtain ⟨rfl, rfl⟩ : pgno = s.pageCount + 1 ∧ s1 = t1 := by
    rw [h1] at halloc
    cases halloc
    exact ⟨rfl, rfl⟩
  obtain ⟨t2, d, h2, hw2, hpc2, hv, hblank⟩ := initPage_spec hw1.ready (hsize.writes hw1)
    (Nat.le_add_left 1 s.pageCount) PAGE_TYPE_LEAF_TABLE
  obtain ⟨rfl, rfl⟩ : s.pageCount + 1 = root ∧ t2 = s' := by
    rw [bind_ok (show initLeafPage _ _ _ = _ from h2)] at hrest
    cases hrest
    exact ⟨rfl, rfl⟩
  have hall := hw1.trans hw2
  rw [hw1.pageSize] at hblank
  have hleaf : LeafAt t2 ⟨s.pageCount + 1, s.pageSize, []⟩ :=
    ⟨(hpc2.trans hpc1).ge, d, hv, hblank.length.trans hall.pageSize.symm,
      hblank.leaf (pageHeaderOffset_le _) hsize.1 hsize.2⟩
  refine ⟨⟨hall.ready, hsize.writes hall, rfl, ?_, .of_leaf hleaf .nil, ?_⟩, hall.pageSize⟩
  · have := hpc2.trans hpc1
    simp only
    omega
  · intro l hl c hc
    rw [List.mem_singleton.mp hl] at hc
    cases hc

/-- A database of one page, in a transaction. -/
def newDatabase : Pager where
  file := []
  walFile := none
  faults := []
  wal := none
  pageSize := 512
  header := DatabaseHeader.new 512
  cache := ∅
  journalMode := .delete
  inTransaction := true
  readOnly := false
  pageCount := 1
  memory := false

theorem newDatabase_ready : newDatabase.Ready := ⟨fun h => (by cases h), rfl, rfl⟩

theorem newDatabase_size : SizeOk newDatabase := ⟨Nat.le_refl _, by decide⟩

/-- The same behind the creation of a table. -/
def withTable : Pager := post createTable newDatabase

/-- The first table. -/
def newTable : Btree where
  pager := withTable
  rootPage := 2
  flags := tableFlags

theorem withTable_created : createTable newDatabase = .ok 2 withTable := by
  obtain ⟨t1, h1, hw1, -, hpc1⟩ := Pager.allocatePage_ready newDatabase_ready (by decide)
  obtain ⟨t2, d, h2, -⟩ := initPage_spec hw1.ready (newDatabase_size.writes hw1)
    (p := newDatabase.pageCount + 1) (by decide) PAGE_TYPE_LEAF_TABLE
  have hrun : createTable newDatabase = .ok 2 t2 := (bind_ok h1 _).trans (bind_ok h2 _)
  rw [withTable, Lib.Run.post, hrun]

theorem newTable_sound : Sound newTable [⟨2, 512, []⟩] :=
  (createTable_sound newDatabase_ready newDatabase_size withTable_created).1

/-- A new table whose leaf has room for the row. -/
theorem newTable_fits {row : Row} (hk : KeyOk row.1) (hr : row.2.length ≤ 64) :
    Fits newTable row := by
  intro n l bytes hroute hb
  obtain ⟨m, htree⟩ := newTable_sound.tree.tree
  have hleaf := htree.leafAt _ (List.mem_singleton_self _)
  have hl := hroute.leafAt
  obtain ⟨bytes', hb', -, hlen⟩ := buildTableCell_ok row.2 hk (by omega)
  cases hb.symm.trans hb'
  have hpg : l.pgno = 2 := hroute.pgno_eq hleaf rfl
  obtain ⟨hstart, hcells⟩ := hl.unique hleaf hpg
  refine .inl ?_
  rw [Leaf.Room, hpg, hstart, hcells, show pageHeaderOffset 2 = 0 from rfl]
  simp only [List.length_nil]
  omega

/-- Twelve rows by ascending keys; the eighth splits the root, the twelfth the
leaf on the right. -/
def twelveRows : List Row :=
  [10, 20, 30, 40, 50, 60, 70, 80, 90, 100, 110, 120].map fun key => (key, List.replicate 60 7)

/-- The key a scan of the table begins with, after insertions of these rows. -/
def firstKey (rows : List Row) : Option Int :=
  match inserts rows newTable with
  | .ok _ b => (post BtreeCursor.first b.cursor).currentKey
  | .error _ _ => none

end Btree

end Sqllite
