import Sqllite.L2Storage.InsertRun

/-!
# A cursor put on a key

`seek` goes down to the leaf the key belongs to and searches that leaf alone: where
deletions took all its keys from the sought one on, the cursor says that it is at the
end, although rows stand on the leaves behind.

* `BtreeCursor.seek_yields`: what `seek` and then `next` return, on any tree.
* `Btree.seek_after_deletes_iff`: when these are the rows from the key on, behind
  insertions by ascending keys and any deletions.
-/
namespace Sqllite
open Lib Lib.Run Lib.Span Lib.Slotted

/-- The first cell of a leaf that is not in front of a key. -/
theorem LeafPage.seek {d : Bytes} {h start : Nat} {cells : List LeafCell}
    (hp : LeafPage d h start cells) (key : Int) :
    findCell (leafLayout h) d (fun i ptr => do
        let rowid ← BtreeCursor.rowidAt tableFlags d ptr
        pure (if rowid ≥ key then some i else none)) cells.length 0 =
      .ok (cells.findIdx? fun c => key ≤ c.key) := by
  have hf := findCell_spec hp.holds.toLists (f := fun i ptr => do
      let rowid ← BtreeCursor.rowidAt tableFlags d ptr
      pure (if rowid ≥ key then some i else none))
    (g := fun i c => if decide (key ≤ c.key) = true then some i else none)
    (fun i c hc => by
      change (BtreeCursor.rowidAt tableFlags d c.ptr >>= _) = _
      rw [BtreeCursor.rowidAt, if_neg (by decide), (hp.readCell hc).1]
      simp only [decide_eq_true_eq]
      rfl) cells.length 0 (Nat.zero_add _)
  rw [hf, List.drop_zero, firstSome_if]
  cases hi : cells.findIdx? fun c => decide (key ≤ c.key) with
  | none => rfl
  | some i =>
    rw [Option.bind_some, List.getElem?_eq_getElem (List.findIdx?_eq_some_iff_getElem.mp hi).1,
      Option.map_some, Nat.zero_add]

theorem Leaf.key_mem {l : Leaf} {row : Row} (h : row ∈ l.rows) : row.1 ∈ l.keys := by
  obtain ⟨c, hc, rfl⟩ := List.mem_map.mp h
  exact List.mem_map_of_mem hc

theorem scanned_nil : ∀ {leaves : List Leaf}, leaves.flatMap (·.rows) = [] → scanned leaves = []
  | [], _ => rfl
  | l :: leaves, h => by
    have hrows := (List.append_eq_nil_iff.mp (List.flatMap_cons ▸ h)).1
    rw [scanned, if_pos (List.map_eq_nil_iff.mp hrows)]

/-- In order, the first row that is not in front of a key is where the others begin. -/
theorem drop_findIdx (key : Int) : ∀ {rows : List Row} {i : Nat},
    (rows.map (·.1)).Pairwise (· < ·) → (rows.findIdx? fun row => key ≤ row.1) = some i →
    rows.drop i = rows.filter fun row => key ≤ row.1
  | [], _, _, h => by cases h
  | row :: rows, i, hsorted, h => by
    obtain ⟨hfirst, hrest⟩ := List.pairwise_cons.mp (List.map_cons ▸ hsorted)
    rw [List.findIdx?_cons] at h
    by_cases hle : key ≤ row.1
    · rw [if_pos (by simpa using hle)] at h
      cases h
      refine (List.filter_eq_self.mpr fun x hx => ?_).symm
      rcases List.mem_cons.mp hx with rfl | hx
      · simpa using hle
      · have := hfirst x.1 (List.mem_map_of_mem hx)
        simp only [decide_eq_true_eq]
        omega
    · rw [if_neg (by simpa using hle), Option.map_eq_some_iff] at h
      obtain ⟨j, hj, rfl⟩ := h
      rw [List.filter_cons_of_neg (by simpa using hle), List.drop_succ_cons]
      exact drop_findIdx key hrest hj

/-! ## Below one divider -/

/-- The leaf of a stored key is the one the key belongs to. -/
theorem WellFormed.route {s : Pager} {root : Nat} (hw : WellFormed s root leaves)
    {l : Leaf} (hl : l ∈ leaves) {key : Int} (hk : key ∈ l.keys) :
    Route s key (Btree.fuel s) root l := by
  obtain ⟨pre, x, post, rfl, hroute, hpre, hpost, -⟩ := hw.focus key
  rcases List.mem_append.mp hl with hl | hl
  · exact absurd (hpre l hl key hk) (Int.lt_irrefl key)
  · rcases List.mem_cons.mp hl with rfl | hl
    · exact hroute
    · exact absurd (hpost l hl key hk) (Int.lt_irrefl key)

/-- Below a root with one divider. -/
theorem Route.side {s : Pager} {key : Int} {n root : Nat} {x l l' : Leaf}
    {cell : InteriorCell} (h : Route s key n root x) (hint : InteriorAt s root [cell] l'.pgno)
    (hchild : cell.child = l.pgno) (hl : LeafAt s l) (hl' : LeafAt s l') :
    x.pgno = if key ≤ cell.key then l.pgno else l'.pgno := by
  obtain ⟨m, child, hslot, hroute⟩ := h.under hint
  by_cases hle : key ≤ cell.key
  · have h0 : slotFor [cell] key = 0 := by simp [slotFor, List.findIdx_cons, hle]
    rw [h0] at hslot
    obtain rfl : cell.child = child := by simpa [children] using hslot
    rw [if_pos hle]
    exact (hroute.pgno_eq hl hchild.symm).trans hchild
  · have h1 : slotFor [cell] key = 1 := by simp [slotFor, List.findIdx_cons, hle]
    rw [h1] at hslot
    obtain rfl : l'.pgno = child := by simpa [children] using hslot
    rw [if_neg hle]
    exact hroute.pgno_eq hl' rfl

/-- The divider of two leaves bounds the keys of the first, which are smaller than those of
the second. -/
theorem WellFormed.divided {s : Pager} {root : Nat} {l l' : Leaf} {cell : InteriorCell}
    (h : WellFormed s root [l, l']) (hint : InteriorAt s root [cell] l'.pgno)
    (hchild : cell.child = l.pgno) :
    (∀ k ∈ l.keys, k ≤ cell.key) ∧ ∀ k ∈ l'.keys, cell.key < k := by
  obtain ⟨n, htree⟩ := h.tree
  have hl := htree.leafAt l (by simp)
  have hl' := htree.leafAt l' (by simp)
  have hne : l.pgno ≠ l'.pgno := by simpa using h.distinct
  constructor
  · intro k hk
    have hside := (h.route (by simp) hk).side hint hchild hl hl'
    by_contra hgt
    rw [if_neg hgt] at hside
    exact hne hside
  · intro k hk
    have hside := (h.route (by simp) hk).side hint hchild hl hl'
    by_contra hle
    rw [if_pos (Int.not_lt.mp hle)] at hside
    exact hne hside.symm

/-! ## The cursor -/

namespace BtreeCursor

section
variable {s : Pager} {c : BtreeCursor}

/-- A descent for a key: the leaves in front hold smaller keys, those behind larger ones. -/
theorem descendForKey_spec (hs : s.Ready) (key : Int) : ∀ {n p : Nat} {leaves : List Leaf},
    TreeAt s n p leaves → ∀ {c : BtreeCursor} {rest : List Leaf}, s.Reads c.btree.pager →
    Ahead s c.stack rest → ∃ pre l post stack t, leaves = pre ++ l :: post ∧ Route s key n p l ∧
      (∀ x ∈ pre, ∀ k ∈ x.keys, k < key) ∧ (∀ x ∈ post, ∀ k ∈ x.keys, key < k) ∧
      descendForKey key n p c = .ok l.pgno (c.moved stack t) ∧ s.Reads t ∧
      Ahead s stack (post ++ rest)
  | 0, _, _, h, _, _, _, _ => h.elim
  | n + 1, _, _, .inl ⟨l, rfl, hl, heq⟩, c, rest, hr, ha => by
    obtain ⟨-, d, hd, -, hpage⟩ := id hl
    obtain ⟨page, t, hg, rfl, ht⟩ := onPager_getPage hs.wal hr hd
    refine ⟨[], l, [], c.stack, t, heq, .leaf hl, by simp, by simp, ?_, ht, ha⟩
    rw [descendForKey, bind_ok hg]
    change (lift (byteAt page.data (pageHeaderOffset l.pgno)) >>= _) _ = _
    rw [hpage.byteAt, bind_ok (lift_ok _ _), if_pos (by decide)]
    rfl
  | n + 1, p, _, .inr ⟨cells, right, parts, hint, h2, hdiv, heq⟩, c, rest, hr, ha => by
    obtain ⟨-, d, hd, -, hpage⟩ := id hint
    obtain ⟨page, t, hg, rfl, ht⟩ := onPager_getPage hs.wal hr hd
    obtain ⟨child, hc, hfind⟩ := hpage.findChild key
    obtain ⟨hlt, rfl⟩ := List.getElem?_eq_some_iff.mp hc
    have hlt' : slotFor cells key < parts.length := h2.length_eq ▸ hlt
    have hsub := List.forall₂_iff_get.mp h2 |>.2
    have ha' : Ahead s ({ pgno := p, childSlot := slotFor cells key } :: c.stack)
        ((parts.drop (slotFor cells key + 1)).flatten ++ rest) :=
      .cons hint (List.forall₂_drop _ h2) ha
    obtain ⟨pre, l, post, stack, t', hpart, hroute, hpre, hpost, hrun, ht', hst⟩ :=
      descendForKey_spec hs key (hsub _ hlt hlt')
        (c := c.moved ({ pgno := p, childSlot := slotFor cells key } :: c.stack) t) ht ha'
    simp only [List.get_eq_getElem] at hpart hrun
    refine ⟨(parts.take (slotFor cells key)).flatten ++ pre, l,
      post ++ (parts.drop (slotFor cells key + 1)).flatten, stack, t', ?_, .node hint hc hroute,
      fun x hx k hk => ?_, fun x hx k hk => ?_, ?_, ht', by rwa [List.append_assoc]⟩
    · have hparts : parts = parts.take (slotFor cells key) ++ (pre ++ l :: post) ::
          parts.drop (slotFor cells key + 1) := by
        rw [← hpart, List.getElem_cons_drop, List.take_append_drop]
      rw [heq]
      conv_lhs => rw [hparts]
      simp only [List.flatten_append, List.flatten_cons, List.append_assoc, List.cons_append]
    · rcases List.mem_append.mp hx with hx | hx
      · obtain ⟨part, hp, hx⟩ := List.mem_flatten.mp hx
        obtain ⟨j, hj, rfl⟩ := List.mem_take_iff_getElem.mp hp
        exact (hdiv.side key (List.getElem?_eq_getElem (by omega)) hx hk).1 (by omega)
      · exact hpre x hx k hk
    · rcases List.mem_append.mp hx with hx | hx
      · exact hpost x hx k hk
      · obtain ⟨part, hp, hx⟩ := List.mem_flatten.mp hx
        obtain ⟨j, hj, rfl⟩ := List.mem_drop_iff_getElem.mp hp
        exact (hdiv.side key (List.getElem?_eq_getElem (by omega)) hx hk).2 (by omega)
    · rw [descendForKey, bind_ok hg]
      change (lift (byteAt page.data (pageHeaderOffset p)) >>= _) _ = _
      rw [hpage.byteAt, bind_ok (lift_ok _ _), if_neg (by decide), if_pos (by decide), childForKey,
        if_pos rfl, hfind, bind_ok (lift_ok _ _)]
      exact (bind_ok (modify_apply _ _) _).trans hrun

/-- `seek` searches the one leaf that the key belongs to. -/
theorem seek_spec (hs : s.Ready) {n : Nat} {leaves : List Leaf} (hr : s.Reads c.btree.pager)
    (hf : c.btree.flags = tableFlags) (h : TreeAt s n c.btree.rootPage leaves) (key : Int) :
    ∃ pre l post c', leaves = pre ++ l :: post ∧
      Route s key (Btree.fuel s) c.btree.rootPage l ∧
      (∀ x ∈ pre, ∀ k ∈ x.keys, k < key) ∧ (∀ x ∈ post, ∀ k ∈ x.keys, key < k) ∧
      match l.cells.findIdx? fun cell => key ≤ cell.key with
      | some i => seek key c = .ok true c' ∧ Placed s c' (some ⟨l, i, post⟩)
      | none => seek key c = .ok false c' := by
  have hfuel : Btree.fuel c.btree.pager = Btree.fuel s := by
    rw [Btree.fuel, hr.pageCount, Btree.fuel]
  obtain ⟨pre, l, post, stack, t, hleaves, hroute, hpre, hpost, hrun, ht, hst⟩ :=
    descendForKey_spec hs key h.height (c := { c with stack := [] }) hr .nil
  rw [List.append_nil] at hst
  obtain ⟨-, d, hd, -, hpage⟩ := id hroute.leafAt
  obtain ⟨page, t', hget, rfl, ht'⟩ := onPager_getPage hs.wal
    (c := { c.moved stack t with leafPgno := l.pgno }) ht hd
  -- the search of the leaf
  have hseek : seek key c = (do
      match l.cells.findIdx? fun cell => key ≤ cell.key with
      | some i => do
        modify fun c => { c with cellIndex := i }
        readCurrent
      | none => do
        modify fun c => { c with endOfTable := true, currentKey := none, currentRecord := none }
        pure false : CursorM Bool)
      { c.moved stack t' with leafPgno := l.pgno, cellIndex := 0, endOfTable := false } := by
    rw [seek, bind_ok (modify_apply _ _), bind_ok (get_apply _)]
    change (descendForKey key (Btree.fuel c.btree.pager) c.btree.rootPage >>= _) _ = _
    rw [hfuel, bind_ok hrun, bind_ok (modify_apply _ _)]
    refine (bind_ok hget _).trans ?_
    change (lift (readU16Be page.data (pageHeaderOffset l.pgno + 3)) >>= _) _ = _
    rw [hpage.count, bind_ok (lift_ok _ _), bind_ok (modify_apply _ _), hf]
    have hfind := hpage.seek key
    exact (bind_ok ((congrArg (fun r => lift r _) hfind).trans (lift_ok _ _)) _)
  refine ⟨pre, l, post, ?_⟩
  cases hi : l.cells.findIdx? fun cell => decide (key ≤ cell.key) with
  | none =>
    rw [hi] at hseek
    exact ⟨_, hleaves, hroute, hpre, hpost, hseek⟩
  | some i =>
    rw [hi] at hseek
    have hlt := (List.findIdx?_eq_some_iff_getElem.mp hi).1
    obtain ⟨c', hrun', hplaced, -⟩ := readCurrent_placed hs ⟨l, i, post⟩
      (c := { c.moved stack t' with leafPgno := l.pgno, cellIndex := i, endOfTable := false })
      ⟨ht', hf, hroute.leafAt, rfl, rfl, hst, rfl⟩
    refine ⟨c', hleaves, hroute, hpre, hpost, ?_, hplaced⟩
    have hcell : Pos.cell ⟨l, i, post⟩ = some l.cells[i] := List.getElem?_eq_getElem hlt
    rw [hcell] at hrun'
    rw [hseek]
    exact (bind_ok (modify_apply _ _) _).trans hrun'

/-- What `seek` and then `next` return: the rows of the leaf from the key on and of the
leaves behind it up to the first empty one, or nothing. -/
theorem seek_yields (hs : s.Ready) {leaves : List Leaf} (hr : s.Reads c.btree.pager)
    (hf : c.btree.flags = tableFlags) (h : WellFormed s c.btree.rootPage leaves) (key : Int) :
    ∃ pre l post c', leaves = pre ++ l :: post ∧
      Route s key (Btree.fuel s) c.btree.rootPage l ∧
      (∀ x ∈ pre, ∀ k ∈ x.keys, k < key) ∧ (∀ x ∈ post, ∀ k ∈ x.keys, key < k) ∧
      Yields (seek key) c (if ∃ k ∈ l.keys, key ≤ k then
        (l.rows.filter fun row => key ≤ row.1) ++ scanned post else []) c' := by
  obtain ⟨n, htree⟩ := h.tree
  obtain ⟨pre, l, post, c1, hleaves, hroute, hpre, hpost, hseek⟩ := seek_spec hs hr hf htree key
  have hsorted : (l.rows.map (·.1)).Pairwise (· < ·) := by
    have := h.leaf_sorted l (hleaves ▸ List.mem_append_right _ List.mem_cons_self)
    rwa [Leaf.rows, List.map_map]
  have hrows : (l.rows.findIdx? fun row => key ≤ row.1) = l.cells.findIdx? fun c => key ≤ c.key := by
    rw [Leaf.rows, List.findIdx?_map]
    rfl
  cases hi : l.cells.findIdx? fun cell => decide (key ≤ cell.key) with
  | none =>
    rw [hi] at hseek
    have hno : ¬ ∃ k ∈ l.keys, key ≤ k := by
      intro h
      obtain ⟨k, hk, hle⟩ := h
      obtain ⟨cell, hcell, rfl⟩ := List.mem_map.mp hk
      simpa [hle] using List.findIdx?_eq_none_iff.mp hi cell hcell
    refine ⟨pre, l, post, c1, hleaves, hroute, hpre, hpost, ?_⟩
    rw [if_neg hno]
    exact hseek
  | some i =>
    rw [hi] at hseek hrows
    obtain ⟨hlt, hki, -⟩ := List.findIdx?_eq_some_iff_getElem.mp hi
    obtain ⟨c', hy, -⟩ := yields_from hs post hlt hseek.1 hseek.2
    rw [drop_findIdx key hsorted hrows] at hy
    refine ⟨pre, l, post, c', hleaves, hroute, hpre, hpost, ?_⟩
    rw [if_pos ⟨l.cells[i].key, List.mem_map_of_mem (List.getElem_mem hlt), of_decide_eq_true hki⟩]
    exact hy

/-- `seek` and then `next` return the rows from the key on, in order. -/
def SeeksTo (c : BtreeCursor) (rows : List Row) (key : Int) : Prop :=
  ∃ c', Yields (seek key) c (rows.filter fun row => key ≤ row.1) c'

/-- `seek` finds what is there exactly when the leaf the key belongs to has a key that is
not smaller and no gap is behind it, or nothing is behind it. -/
theorem seeksTo_iff (hs : s.Ready) {leaves : List Leaf} (hr : s.Reads c.btree.pager)
    (hf : c.btree.flags = tableFlags) (h : WellFormed s c.btree.rootPage leaves) (key : Int) :
    ∃ pre l post, leaves = pre ++ l :: post ∧ Route s key (Btree.fuel s) c.btree.rootPage l ∧
      (SeeksTo c (leaves.flatMap (·.rows)) key ↔
        (∃ k ∈ l.keys, key ≤ k) ∧ scanned post = post.flatMap (·.rows) ∨
          post.flatMap (·.rows) = []) := by
  obtain ⟨pre, l, post, c1, rfl, hroute, hpre, hpost, hy⟩ := seek_yields hs hr hf h key
  refine ⟨pre, l, post, rfl, hroute, ?_⟩
  have hrows : ((pre ++ l :: post).flatMap (·.rows)).filter (fun row => decide (key ≤ row.1)) =
      (l.rows.filter fun row => decide (key ≤ row.1)) ++ post.flatMap (·.rows) := by
    rw [List.flatMap_append, List.flatMap_cons, List.filter_append, List.filter_append]
    have h1 : (pre.flatMap (·.rows)).filter (fun row => decide (key ≤ row.1)) = [] := by
      rw [List.filter_eq_nil_iff]
      intro row hrow
      obtain ⟨x, hx, hrow⟩ := List.mem_flatMap.mp hrow
      have := hpre x hx row.1 (Leaf.key_mem hrow)
      simp only [decide_eq_true_eq]
      omega
    have h2 : (post.flatMap (·.rows)).filter (fun row => decide (key ≤ row.1)) =
        post.flatMap (·.rows) := by
      rw [List.filter_eq_self]
      intro row hrow
      obtain ⟨x, hx, hrow⟩ := List.mem_flatMap.mp hrow
      have := hpost x hx row.1 (Leaf.key_mem hrow)
      simp only [decide_eq_true_eq]
      omega
    rw [h1, h2, List.nil_append]
  have hyields : SeeksTo c ((pre ++ l :: post).flatMap (·.rows)) key ↔
      (if ∃ k ∈ l.keys, key ≤ k then
        (l.rows.filter fun row => decide (key ≤ row.1)) ++ scanned post else []) =
        (l.rows.filter fun row => decide (key ≤ row.1)) ++ post.flatMap (·.rows) := by
    rw [← hrows]
    constructor
    · intro h
      obtain ⟨c2, hy2⟩ := h
      exact (hy.unique hy2).1
    · intro h
      exact ⟨c1, h ▸ hy⟩
  rw [hyields]
  by_cases hex : ∃ k ∈ l.keys, key ≤ k
  · rw [if_pos hex, List.append_cancel_left_eq]
    constructor
    · intro h
      exact .inl ⟨hex, h⟩
    · intro h
      rcases h with ⟨-, h⟩ | h
      · exact h
      · rw [h, scanned_nil h]
  · have hnil : (l.rows.filter fun row => decide (key ≤ row.1)) = [] := by
      rw [List.filter_eq_nil_iff]
      intro row hrow hle
      exact hex ⟨row.1, Leaf.key_mem hrow, of_decide_eq_true hle⟩
    rw [if_neg hex, hnil, List.nil_append]
    constructor
    · intro h
      exact .inr h.symm
    · intro h
      rcases h with ⟨h, -⟩ | h
      · exact absurd h hex
      · exact h.symm

/-- With two leaves: the first is searched for a key up to the divider, and has one that is
not smaller unless the second is empty. -/
theorem seeksTo_two_iff (hs : s.Ready) {l l' : Leaf} {cell : InteriorCell}
    (hr : s.Reads c.btree.pager) (hf : c.btree.flags = tableFlags)
    (h : WellFormed s c.btree.rootPage [l, l'])
    (hint : InteriorAt s c.btree.rootPage [cell] l'.pgno) (hchild : cell.child = l.pgno) (key : Int) :
    SeeksTo c ([l, l'].flatMap (·.rows)) key ↔
      cell.key < key ∨ (∃ k ∈ l.keys, key ≤ k) ∨ l'.rows = [] := by
  obtain ⟨n, htree⟩ := h.tree
  have hne : l.pgno ≠ l'.pgno := by simpa using h.distinct
  obtain ⟨pre, x, post, hsplit, hroute, hiff⟩ := seeksTo_iff hs hr hf h key
  have hside := hroute.side hint hchild (htree.leafAt l (by simp)) (htree.leafAt l' (by simp))
  rw [hiff]
  rcases pre with _ | ⟨a, _ | ⟨a', pre⟩⟩
  · -- the first leaf
    obtain ⟨rfl, rfl⟩ := List.cons.inj hsplit
    have hle : key ≤ cell.key := by
      by_contra hgt
      rw [if_neg hgt] at hside
      exact hne hside
    have hone : scanned [l'] = [l'].flatMap (·.rows) :=
      (Btree.scanned_eq_iff _).mpr (List.pairwise_singleton _ _)
    rw [and_iff_left hone, List.flatMap_singleton]
    exact (or_iff_right (Int.not_lt.mpr hle)).symm
  · -- the second leaf
    obtain ⟨rfl, hrest⟩ := List.cons.inj hsplit
    obtain ⟨rfl, rfl⟩ := List.cons.inj hrest
    have hgt : cell.key < key := by
      by_contra hle
      rw [if_pos (Int.not_lt.mp hle)] at hside
      exact hne hside.symm
    exact iff_of_true (.inr rfl) (.inl hgt)
  · have hlen := congrArg List.length hsplit
    simp at hlen

end

end BtreeCursor

/-! ## Behind insertions and deletions -/

namespace Btree

/-- No divider of the root page is deleted while a larger key remains. -/
def DividersKept (b : Btree) (rows : List Row) (deleted : List Int) : Prop :=
  ∀ cells right, InteriorAt b.pager b.rootPage cells right →
    ∀ cell ∈ cells, cell.key ∈ deleted → ∀ row ∈ rows, cell.key < row.1 → row.1 ∈ deleted

section
variable {b : Btree} {leaves : List Leaf}

/-- A root that is a leaf has no divider, and `seek` searches all there is. -/
theorem seeks_leaf {l : Leaf} (hs : b.pager.Ready) (hf : b.flags = tableFlags)
    (hw : WellFormed b.pager b.rootPage [l]) (c : BtreeCursor) (hc : c.btree = b) (key : Int) :
    BtreeCursor.SeeksTo c ([l].flatMap (·.rows)) key := by
  subst hc
  obtain ⟨pre, x, post, hsplit, -, hiff⟩ :=
    BtreeCursor.seeksTo_iff hs (Pager.Reads.refl _) hf hw key
  have hlen : pre.length + (post.length + 1) = 1 := by
    simpa using (congrArg List.length hsplit).symm
  have hpost : post = [] := List.eq_nil_of_length_eq_zero (by omega)
  rw [hiff, hpost]
  exact .inr rfl

/-- What deletions below a root with one divider, a key of the first leaf, may take. -/
theorem dividersKept_iff {l l' : Leaf} {cell : InteriorCell} {deleted : List Int}
    (hw : WellFormed b.pager b.rootPage [l, l']) (hint : InteriorAt b.pager b.rootPage [cell] l'.pgno)
    (hchild : cell.child = l.pgno) :
    DividersKept b ([l, l'].flatMap (·.rows)) deleted ↔
      (cell.key ∈ deleted → (l'.keep (· ∉ deleted)).rows = []) := by
  obtain ⟨hlow, hhigh⟩ := hw.divided hint hchild
  constructor
  · intro h hdel
    rw [Leaf.keep_rows, List.filter_eq_nil_iff]
    intro row hrow
    have := h [cell] l'.pgno hint cell (List.mem_singleton_self _) hdel row (by simp [hrow])
      (hhigh _ (Leaf.key_mem hrow))
    simpa using this
  · intro h cells right hint0 c0 hc0 hdel row hrow hlt
    have hkey : c0.key = cell.key := by
      have hval : c0.val ∈ [cell].map (·.val) := (hint0.unique hint).1 ▸ List.mem_map_of_mem hc0
      simp only [List.map_cons, List.map_nil, List.mem_singleton] at hval
      rw [InteriorCell.key, hval]
      rfl
    rw [hkey] at hdel hlt
    have hrow' : row ∈ l'.rows := by
      simp only [List.flatMap_cons, List.flatMap_nil, List.append_nil, List.mem_append] at hrow
      rcases hrow with hrow | hrow
      · have := hlow _ (Leaf.key_mem hrow)
        omega
      · exact hrow
    have hnil := h hdel
    rw [Leaf.keep_rows, List.filter_eq_nil_iff] at hnil
    simpa using hnil row hrow'

/-- Below a divider that is one of the keys in front of it, `seek` is right for every key
exactly when deletions leave the divider or nothing behind it. -/
theorem Parted.seeks_iff (hs : b.pager.Ready) (hf : b.flags = tableFlags)
    (hw : WellFormed b.pager b.rootPage leaves) (hp : Parted b leaves) (deleted : List Int) :
    ∃ b', deletes deleted b = .ok () b' ∧
      ((∀ c key, c.btree = b' → BtreeCursor.SeeksTo c (remaining leaves deleted) key) ↔
        DividersKept b (leaves.flatMap (·.rows)) deleted) := by
  obtain ⟨t, hrun, hwrites, hw'⟩ := deletes_spec deleted hs hf hw
  refine ⟨_, hrun, ?_⟩
  rw [← remaining_eq]
  obtain ⟨n, htree⟩ := hw.tree
  rcases hp with ⟨l, rfl, hroot⟩ | ⟨l, l', cell, rfl, hint, hchild, hkey⟩
  · have hleaf := htree.leafAt l (List.mem_singleton_self l)
    refine iff_of_true (fun c key hc => ?_) fun cells right hint => ?_
    · exact seeks_leaf (b := { b with pager := t }) hwrites.ready hf hw' c hc key
    · exact (hleaf.not_interior (hroot ▸ hint)).elim
  · have hint' : InteriorAt t b.rootPage [cell] l'.pgno := hint.writes hwrites fun hp => by
      simp only [List.map_cons, List.map_nil, List.mem_cons, List.not_mem_nil, or_false] at hp
      rcases hp with hp | hp
      · exact (htree.leafAt l (by simp)).not_interior (hp ▸ hint)
      · exact (htree.leafAt l' (by simp)).not_interior (hp ▸ hint)
    have hseeks : ∀ c key, c.btree = { b with pager := t } → (BtreeCursor.SeeksTo c
        ([l.keep (· ∉ deleted), l'.keep (· ∉ deleted)].flatMap (·.rows)) key ↔
          cell.key < key ∨ (∃ k ∈ (l.keep (· ∉ deleted)).keys, key ≤ k) ∨
            (l'.keep (· ∉ deleted)).rows = []) := fun c key hc => by
      have hr : t.Reads c.btree.pager := by
        rw [hc]
        exact Pager.Reads.refl t
      have hwc : WellFormed t c.btree.rootPage [l.keep (· ∉ deleted), l'.keep (· ∉ deleted)] := by
        rw [hc]
        exact hw'
      exact BtreeCursor.seeksTo_two_iff hwrites.ready hr (by rw [hc]; exact hf) hwc
        (by rw [hc]; exact hint') hchild key
    obtain ⟨hlow, -⟩ := hw.divided hint hchild
    rw [dividersKept_iff hw hint hchild]
    constructor
    · intro h hdel
      rcases (hseeks (cursor { b with pager := t }) cell.key rfl).mp (h _ _ rfl) with
        hlt | ⟨k, hk, hle⟩ | hnil
      · exact absurd hlt (Int.lt_irrefl _)
      · rw [Leaf.keep_keys, List.mem_filter] at hk
        obtain rfl : k = cell.key := Int.le_antisymm (hlow k hk.1) hle
        simp [hdel] at hk
      · exact hnil
    · intro h c key hc
      refine (hseeks c key hc).mpr ?_
      by_cases hlt : cell.key < key
      · exact .inl hlt
      · by_cases hdel : cell.key ∈ deleted
        · exact .inr (.inr (h hdel))
        · refine .inr (.inl ⟨cell.key, ?_, Int.not_lt.mp hlt⟩)
          rw [Leaf.keep_keys, List.mem_filter]
          exact ⟨hkey, by simpa using hdel⟩

end

/-- What `seek` answers for the key, behind insertions and deletions. -/
def seekAfter (rows : List Row) (deleted : List Int) (key : Int) : Option Bool :=
  match inserts rows newTable with
  | .ok _ b =>
    match deletes deleted b with
    | .ok _ b' => (outcome (BtreeCursor.seek key) b'.cursor).toOption
    | .error _ _ => none
  | .error _ _ => none

example : seekAfter [(1, [7]), (3, [8])] [1] 2 = some true := by decide +kernel

end Btree

end Sqllite
