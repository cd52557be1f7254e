import Sqllite.Lib.Levels
import Sqllite.L2Storage.InteriorPages
import Sqllite.L2Storage.PagerView

/-!
# Table B-trees in a pager

`TreeAt s n p leaves` says that page `p` of pager `s` is the root of a table
B-tree of at most `n` levels with these leaves, from left to right. Any shape is
allowed: leaves on different levels, interior pages without cells, empty leaves.

* `TreeAt.height`: a tree has at most as many levels as the descents have fuel.
* `TreeAt.route`: a descent for a key ends at the one leaf that can hold it.
* `TreeAt.map`: a tree whose leaves are rewritten in place.
-/
namespace Sqllite
open Lib.Run Lib.Span Lib.Slotted Lib.Levels

/-! ## Pages of a pager -/

/-- A leaf: its page, the offset of its lowest cell, its cells. -/
structure Leaf where
  pgno : Nat
  start : Nat
  cells : List LeafCell
  deriving DecidableEq, Repr

def Leaf.keys (l : Leaf) : List Int := l.cells.map (·.key)

def Leaf.rows (l : Leaf) : List Row := l.cells.map (·.val)

def LeafAt (s : Pager) (l : Leaf) : Prop :=
  l.pgno ≤ s.pageCount ∧ ∃ d, s.view l.pgno = .ok d ∧ d.length = s.pageSize ∧
    LeafPage d (pageHeaderOffset l.pgno) l.start l.cells

def InteriorAt (s : Pager) (p : Nat) (cells : List InteriorCell) (right : Nat) : Prop :=
  p ≤ s.pageCount ∧ ∃ d, s.view p = .ok d ∧ d.length = s.pageSize ∧
    InteriorPage d (pageHeaderOffset p) cells right

/-- No page is both. -/
theorem LeafAt.not_interior {s : Pager} {l : Leaf} (h : LeafAt s l)
    {cells : List InteriorCell} {right : Nat} (g : InteriorAt s l.pgno cells right) :
    False := by
  obtain ⟨-, d, hd, -, hp⟩ := h
  obtain ⟨-, d', hd', -, hp'⟩ := g
  obtain rfl : d = d' := by rw [hd] at hd'; exact Except.ok.inj hd'
  have := hp.type.symm.trans hp'.type
  exact absurd this (by decide)

/-- What a page says about the leaf on it. -/
theorem LeafAt.unique {s : Pager} {l l' : Leaf} (h : LeafAt s l) (g : LeafAt s l')
    (hp : l.pgno = l'.pgno) : l.start = l'.start ∧ l.cells.length = l'.cells.length := by
  obtain ⟨-, d, hd, -, hl⟩ := h
  obtain ⟨-, d', hd', -, hl'⟩ := g
  rw [← hp] at hd' hl'
  obtain rfl : d = d' := by rw [hd] at hd'; exact Except.ok.inj hd'
  refine ⟨?_, Except.ok.inj (hl.count.symm.trans hl'.count)⟩
  have hmod : l.start % 65536 = l'.start % 65536 := by
    rw [← ofBE_be16, ← ofBE_be16, hl.holds.content.eq_of_length hl'.holds.content rfl]
  have hle := hl.holds.start_le
  have hle' := hl'.holds.start_le
  have hroom := hl.holds.room
  have hroom' := hl'.holds.room
  simp only [leafLayout] at hroom hroom'
  omega

/-- What a page says about its children and dividers. -/
theorem InteriorAt.unique {s : Pager} {p : Nat} {cells cells' : List InteriorCell}
    {right right' : Nat} (h : InteriorAt s p cells right) (g : InteriorAt s p cells' right') :
    cells.map (·.val) = cells'.map (·.val) ∧ right = right' := by
  obtain ⟨-, d, hd, -, hp⟩ := h
  obtain ⟨-, d', hd', -, hp'⟩ := g
  obtain rfl : d = d' := by rw [hd] at hd'; exact Except.ok.inj hd'
  have hlen : cells.length = cells'.length := Except.ok.inj (hp.count.symm.trans hp'.count)
  refine ⟨List.ext_getElem (by simpa using hlen) fun i h1 h2 => ?_,
    Except.ok.inj (hp.readRight.symm.trans hp'.readRight)⟩
  rw [List.length_map] at h1 h2
  rw [List.getElem_map, List.getElem_map]
  have hptr := (hp.ptr (List.getElem?_eq_getElem h1)).symm.trans
    (hp'.ptr (List.getElem?_eq_getElem h2))
  have hcell := hp.readCell (List.getElem_mem h1)
  rw [Except.ok.inj hptr] at hcell
  exact Except.ok.inj (hcell.symm.trans (hp'.readCell (List.getElem_mem h2)))

theorem children_congr {cells cells' : List InteriorCell} (right : Nat)
    (h : cells.map (·.val) = cells'.map (·.val)) : children cells right = children cells' right := by
  have hmap := congrArg (List.map Prod.fst) h
  rw [List.map_map, List.map_map] at hmap
  exact congrArg (· ++ [right]) hmap

theorem slotFor_congr {cells cells' : List InteriorCell} (key : Int)
    (h : cells.map (·.val) = cells'.map (·.val)) : slotFor cells key = slotFor cells' key := by
  have hfind := congrArg (List.findIdx fun v : Nat × Int => decide (key ≤ v.2)) h
  rwa [List.findIdx_map, List.findIdx_map] at hfind

/-! ## Trees -/

/-- The keys below child `i` are those looked for there: the dividers bound the
keys of their subtrees. -/
def Divides (cells : List InteriorCell) (parts : List (List Leaf)) : Prop :=
  ∀ i part, parts[i]? = some part → ∀ l ∈ part, ∀ key ∈ l.keys, slotFor cells key = i

def TreeAt (s : Pager) : Nat → Nat → List Leaf → Prop
  | 0, _, _ => False
  | n + 1, p, leaves =>
    (∃ l, l.pgno = p ∧ LeafAt s l ∧ leaves = [l]) ∨
    ∃ cells right parts, InteriorAt s p cells right ∧
      List.Forall₂ (TreeAt s n) (children cells right) parts ∧ Divides cells parts ∧
      leaves = parts.flatten

section
variable {s : Pager} {n m p : Nat} {leaves : List Leaf}

theorem TreeAt.succ : ∀ {n p : Nat} {leaves : List Leaf}, TreeAt s n p leaves →
    TreeAt s (n + 1) p leaves
  | 0, _, _, h => h.elim
  | _ + 1, _, _, .inl h => .inl h
  | _ + 1, _, _, .inr ⟨cells, right, parts, h1, h2, h3⟩ =>
    .inr ⟨cells, right, parts, h1, h2.imp fun _ _ h => TreeAt.succ h, h3⟩

theorem TreeAt.mono (h : TreeAt s n p leaves) (hnm : n ≤ m) : TreeAt s m p leaves := by
  induction hnm with
  | refl => exact h
  | step _ ih => exact ih.succ

theorem TreeAt.le_pageCount (h : TreeAt s n p leaves) : p ≤ s.pageCount := by
  cases n with
  | zero => exact h.elim
  | succ n =>
    rcases h with ⟨l, rfl, hl, -⟩ | ⟨_, _, _, hi, -⟩
    · exact hl.1
    · exact hi.1

theorem TreeAt.leafAt : ∀ {n p : Nat} {leaves : List Leaf}, TreeAt s n p leaves →
    ∀ l ∈ leaves, LeafAt s l
  | 0, _, _, h, _, _ => h.elim
  | n + 1, _, _, .inl ⟨l, _, hl, heq⟩, x, hx => by
    rw [heq, List.mem_singleton] at hx
    exact hx ▸ hl
  | n + 1, _, _, .inr ⟨_, _, parts, _, h2, _, heq⟩, x, hx => by
    rw [heq, List.mem_flatten] at hx
    obtain ⟨part, hpart, hx⟩ := hx
    obtain ⟨i, hi, rfl⟩ := List.mem_iff_getElem.mp hpart
    have hlen := h2.length_eq
    exact TreeAt.leafAt (List.forall₂_iff_get.mp h2 |>.2 i (by omega) hi) x hx

theorem TreeAt.ne_nil : ∀ {n p : Nat} {leaves : List Leaf}, TreeAt s n p leaves → leaves ≠ []
  | 0, _, _, h => h.elim
  | n + 1, _, _, .inl ⟨l, _, _, heq⟩ => by rw [heq]; exact List.cons_ne_nil _ _
  | n + 1, _, _, .inr ⟨cells, right, parts, _, h2, _, heq⟩ => by
    have hlen := h2.length_eq
    rw [children_length] at hlen
    have h0 : 0 < parts.length := by omega
    have ih := TreeAt.ne_nil (List.forall₂_iff_get.mp h2 |>.2 0 (by rw [children_length]; omega) h0)
    rw [heq]
    intro hnil
    exact ih (List.flatten_eq_nil_iff.mp hnil _ (List.get_mem parts ⟨0, h0⟩))

/-! ## Height -/

/-- The tree as one of the graph of the pages. -/
theorem treeAt_iff_spans : ∀ {n p : Nat} {leaves : List Leaf}, TreeAt s n p leaves ↔
    Spans (fun p leaves => ∃ l, l.pgno = p ∧ LeafAt s l ∧ leaves = [l])
      (fun p kids parts => ∃ cells right, InteriorAt s p cells right ∧
        kids = children cells right ∧ Divides cells parts) n p leaves
  | 0, _, _ => Iff.rfl
  | n + 1, p, leaves => by
    refine or_congr Iff.rfl ⟨?_, ?_⟩
    · intro h
      obtain ⟨cells, right, parts, h1, h2, h3, h4⟩ := h
      exact ⟨_, parts, ⟨cells, right, h1, rfl, h3⟩, h2.imp fun _ _ => treeAt_iff_spans.mp, h4⟩
    · intro h
      obtain ⟨_, parts, ⟨cells, right, h1, rfl, h3⟩, h2, h4⟩ := h
      exact ⟨cells, right, parts, h1, h2.imp fun _ _ => treeAt_iff_spans.mpr, h3, h4⟩

/-- The fuel of a descent is enough for every tree. -/
theorem TreeAt.height (h : TreeAt s n p leaves) : TreeAt s (Btree.fuel s) p leaves := by
  rw [treeAt_iff_spans] at h ⊢
  refine Spans.height ⟨fun p leaves kids parts hl hi => ?_, fun p kids parts kids' parts' h g => ?_⟩
    (fun n p leaves ht => ?_) (Nat.le_of_eq (Finset.card_range (s.pageCount + 1))) h
  · obtain ⟨l, rfl, hl, -⟩ := hl
    obtain ⟨_, _, hi, -⟩ := hi
    exact hl.not_interior hi
  · obtain ⟨_, _, hi, rfl, -⟩ := h
    obtain ⟨_, _, hi', rfl, -⟩ := g
    obtain ⟨hvals, rfl⟩ := hi.unique hi'
    exact children_congr _ hvals
  · exact Finset.mem_range.mpr (Nat.lt_succ_of_le (treeAt_iff_spans.mpr ht).le_pageCount)

/-! ## Descents -/

theorem onPager_getPage (hs : s.Ready) {b : Btree} (hr : s.Reads b.pager) {d : Bytes}
    (hv : s.view p = .ok d) :
    ∃ page t, Btree.onPager (Pager.getPage p) b = .ok page { b with pager := t } ∧ page.pgno = p ∧
      page.data = d ∧ s.Reads t := by
  obtain ⟨page, t, h1, h2⟩ := hr.getPage hs hv
  exact ⟨page, t, zoom_ok h1, h2⟩

/-- A descent for a key ends at the one leaf that can hold it. -/
theorem TreeAt.route (hs : s.Ready) (key : Int) : ∀ {n p : Nat} {leaves : List Leaf},
    TreeAt s n p leaves → ∀ b : Btree, s.Reads b.pager →
    ∃ l ∈ leaves, ∃ t, Btree.findLeafForKey key n p b = .ok l.pgno { b with pager := t } ∧
      s.Reads t ∧ ∀ l' ∈ leaves, key ∈ l'.keys → l' = l
  | 0, _, _, h, _, _ => h.elim
  | n + 1, _, _, .inl ⟨l, rfl, ⟨_, d, hd, _, hpage⟩, heq⟩, b, hr => by
    obtain ⟨page, t, hg, -, rfl, ht⟩ := onPager_getPage hs hr hd
    refine ⟨l, by rw [heq]; exact List.mem_singleton_self l, t, ?_, ht, fun l' hl' _ => ?_⟩
    · rw [Btree.findLeafForKey, bind_ok hg]
      simp only
      rw [hpage.byteAt, bind_ok (lift_ok _ _), if_pos rfl]
      rfl
    · rw [heq] at hl'
      exact List.mem_singleton.mp hl'
  | n + 1, p, _, .inr ⟨cells, right, parts, ⟨_, d, hd, _, hpage⟩, h2, hdiv, heq⟩, b, hr => by
    obtain ⟨page, t, hg, -, rfl, ht⟩ := onPager_getPage hs hr hd
    obtain ⟨child, hc, hfind⟩ := hpage.findChild key
    obtain ⟨hlt, rfl⟩ := List.getElem?_eq_some_iff.mp hc
    have hlt' : slotFor cells key < parts.length := h2.length_eq ▸ hlt
    obtain ⟨l, hl, t', hrun, ht', hone⟩ := TreeAt.route hs key
      (List.forall₂_iff_get.mp h2 |>.2 _ hlt hlt') { b with pager := t } ht
    have hpart : parts[slotFor cells key]? = some parts[slotFor cells key] :=
      List.getElem?_eq_getElem hlt'
    refine ⟨l, ?_, t', ?_, ht', fun l' hl' hkey => ?_⟩
    · rw [heq]
      exact List.mem_flatten.mpr ⟨_, List.mem_of_getElem? hpart, hl⟩
    · rw [Btree.findLeafForKey, bind_ok hg]
      simp only
      rw [hpage.byteAt, bind_ok (lift_ok _ _), if_neg (by decide), if_pos rfl, hfind,
        bind_ok (lift_ok _ _)]
      exact hrun
    · rw [heq] at hl'
      obtain ⟨part, hpart', hl'⟩ := List.mem_flatten.mp hl'
      obtain ⟨i, hi, rfl⟩ := List.mem_iff_getElem.mp hpart'
      obtain rfl := hdiv i _ (List.getElem?_eq_getElem hi) l' hl' key hkey
      exact hone l' hl' hkey

/-! ## Leaves rewritten in place -/

theorem LeafAt.writes {s' : Pager} {l : Leaf} {touched : List Nat} (h : LeafAt s l)
    (hw : Pager.Writes touched s s') (hl : l.pgno ∉ touched) : LeafAt s' l := by
  obtain ⟨h1, d, hd, hlen, hp⟩ := h
  exact ⟨Nat.le_trans h1 hw.pageCount, d, hw.keep _ d hl hd, by rw [hlen, hw.pageSize], hp⟩

theorem InteriorAt.writes {s' : Pager} {right : Nat} {cells : List InteriorCell}
    {touched : List Nat} (h : InteriorAt s p cells right) (hw : Pager.Writes touched s s')
    (hp : p ∉ touched) : InteriorAt s' p cells right := by
  obtain ⟨h1, d, hd, hlen, hpage⟩ := h
  exact ⟨Nat.le_trans h1 hw.pageCount, d, hw.keep _ d hp hd, by rw [hlen, hw.pageSize], hpage⟩

theorem TreeAt.map {s' : Pager} {f : Leaf → Leaf}
    (hint : ∀ p cells right, InteriorAt s p cells right →
      InteriorAt s' p cells right) : ∀ {n p : Nat} {leaves : List Leaf},
    (∀ l ∈ leaves, LeafAt s' (f l) ∧ (f l).pgno = l.pgno ∧ ∀ key ∈ (f l).keys, key ∈ l.keys) →
    TreeAt s n p leaves → TreeAt s' n p (leaves.map f)
  | 0, _, _, _, h => h.elim
  | n + 1, _, _, hf, .inl ⟨l, hp, _, heq⟩ => by
    obtain ⟨h1, h2, -⟩ := hf l (by rw [heq]; exact List.mem_singleton_self l)
    exact .inl ⟨f l, h2.trans hp, h1, by rw [heq]; rfl⟩
  | n + 1, _, _, hf, .inr ⟨cells, right, parts, h1, h2, hdiv, heq⟩ => by
    have hmem : ∀ part ∈ parts, ∀ l ∈ part, l ∈ parts.flatten := fun part hp l hl =>
      List.mem_flatten.mpr ⟨part, hp, hl⟩
    refine .inr ⟨cells, right, parts.map (List.map f), hint _ _ _ h1, ?_, ?_, ?_⟩
    · refine List.forall₂_iff_get.mpr ⟨by rw [List.length_map]; exact h2.length_eq, fun i hi hi' => ?_⟩
      have hi'' : i < parts.length := by rwa [List.length_map] at hi'
      simp only [List.get_eq_getElem, List.getElem_map]
      exact TreeAt.map hint (fun l hl => hf l (heq ▸ hmem _ (List.getElem_mem hi'') l hl))
        (List.forall₂_iff_get.mp h2 |>.2 i hi hi'')
    · intro i part hi l hl key hkey
      rw [List.getElem?_map, Option.map_eq_some_iff] at hi
      obtain ⟨part', hi, rfl⟩ := hi
      obtain ⟨l', hl', rfl⟩ := List.mem_map.mp hl
      have hin := hmem _ (List.mem_of_getElem? hi) l' hl'
      exact hdiv i part' hi l' hl' key ((hf l' (heq ▸ hin)).2.2 key hkey)
    · rw [heq, List.map_flatten]

theorem TreeAt.frame {s' : Pager} (hint : ∀ p cells right, InteriorAt s p cells right →
    InteriorAt s' p cells right) (hleaf : ∀ l ∈ leaves, LeafAt s' l) (h : TreeAt s n p leaves) :
    TreeAt s' n p leaves := by
  have := h.map (f := id) hint fun l hl => ⟨hleaf l hl, rfl, fun _ hk => hk⟩
  rwa [List.map_id] at this

/-! ## The leaf a key belongs to -/

/-- The descent for a key from page `p` ends at leaf `l`. -/
inductive Route (s : Pager) (key : Int) : Nat → Nat → Leaf → Prop
  | leaf {n : Nat} {l : Leaf} : LeafAt s l → Route s key (n + 1) l.pgno l
  | node {n p child right : Nat} {cells : List InteriorCell} {l : Leaf} :
      InteriorAt s p cells right → (children cells right)[slotFor cells key]? = some child →
      Route s key n child l → Route s key (n + 1) p l

theorem Route.leafAt {key : Int} {l : Leaf} (h : Route s key n p l) : LeafAt s l := by
  induction h with
  | leaf hl => exact hl
  | node _ _ _ ih => exact ih

/-- From a leaf the descent goes nowhere. -/
theorem Route.pgno_eq {key : Int} {l l' : Leaf} (h : Route s key n p l) (hl : LeafAt s l')
    (hp : l'.pgno = p) : l.pgno = p := by
  cases h with
  | leaf => rfl
  | node hint => exact (hl.not_interior (hp ▸ hint)).elim

/-- From an interior page the descent goes on at the child of the key's slot. -/
theorem Route.under {key : Int} {l : Leaf} {right : Nat} {cells : List InteriorCell}
    (h : Route s key n p l) (hint : InteriorAt s p cells right) : ∃ m child,
    (children cells right)[slotFor cells key]? = some child ∧ Route s key m child l := by
  cases h with
  | leaf hl => exact (hl.not_interior hint).elim
  | @node m _ child right' cells' _ hint' hchild hroute =>
    obtain ⟨hvals, rfl⟩ := hint.unique hint'
    rw [← children_congr right hvals, ← slotFor_congr key hvals] at hchild
    exact ⟨m, child, hchild, hroute⟩

theorem slotFor_mono (cells : List InteriorCell) {a b : Int} (h : a ≤ b) :
    slotFor cells a ≤ slotFor cells b := by
  refine List.findIdx_le_findIdx fun c _ hc => ?_
  simp only [decide_eq_true_eq] at hc ⊢
  omega

/-- A part in front of a key's or behind it holds smaller or larger keys. -/
theorem Divides.side {cells : List InteriorCell} {parts : List (List Leaf)} (h : Divides cells parts)
    (key : Int) {j : Nat} {part : List Leaf} (hj : parts[j]? = some part) {l : Leaf} (hl : l ∈ part)
    {k : Int} (hk : k ∈ l.keys) :
    (j < slotFor cells key → k < key) ∧ (slotFor cells key < j → key < k) := by
  have hs := h j part hj l hl k hk
  constructor
  · intro hlt
    by_contra hge
    have := slotFor_mono cells (Int.not_lt.mp hge)
    omega
  · intro hlt
    by_contra hge
    have := slotFor_mono cells (Int.not_lt.mp hge)
    omega

/-- A tree around the leaf a key belongs to: the keys in front are smaller, those
behind larger, and another leaf with that key can stand in its place. -/
theorem TreeAt.focus (key : Int) : ∀ {n p : Nat} {leaves : List Leaf}, TreeAt s n p leaves →
    ∃ pre l post, leaves = pre ++ l :: post ∧ Route s key n p l ∧
      (∀ x ∈ pre, ∀ k ∈ x.keys, k < key) ∧ (∀ x ∈ post, ∀ k ∈ x.keys, key < k) ∧
      ∀ (s' : Pager) (l' : Leaf), (∀ p cells right, InteriorAt s p cells right →
          InteriorAt s' p cells right) → (∀ x ∈ pre ++ post, LeafAt s' x) → LeafAt s' l' →
        l'.pgno = l.pgno → (∀ k ∈ l'.keys, k = key ∨ k ∈ l.keys) →
        TreeAt s' n p (pre ++ l' :: post)
  | 0, _, _, h => h.elim
  | n + 1, _, _, .inl ⟨l, rfl, hl, heq⟩ =>
    ⟨[], l, [], heq, .leaf hl, by simp, by simp, fun s' l' _ _ hl' hp _ =>
      .inl ⟨l', hp, hl', rfl⟩⟩
  | n + 1, p, _, .inr ⟨cells, right, parts, h1, h2, hdiv, heq⟩ => by
    have hlen := h2.length_eq
    rw [children_length] at hlen
    have hslot := slotFor_le cells key
    have hi : slotFor cells key < parts.length := by omega
    have hc : slotFor cells key < (children cells right).length := by rw [children_length]; omega
    have hsub := List.forall₂_iff_get.mp h2 |>.2
    obtain ⟨pre, l, post, hpart, hroute, hpre, hpost, hctx⟩ := TreeAt.focus key (hsub _ hc hi)
    simp only [List.get_eq_getElem] at hpart
    have hparts : parts = parts.take (slotFor cells key) ++ (pre ++ l :: post) ::
        parts.drop (slotFor cells key + 1) := by
      rw [← hpart, List.getElem_cons_drop, List.take_append_drop]
    refine ⟨(parts.take (slotFor cells key)).flatten ++ pre, l,
      post ++ (parts.drop (slotFor cells key + 1)).flatten, ?_,
      .node h1 (List.getElem?_eq_getElem hc) hroute, fun x hx k hk => ?_, fun x hx k hk => ?_, ?_⟩
    · rw [heq]
      conv_lhs => rw [hparts]
      simp only [List.flatten_append, List.flatten_cons, List.append_assoc, List.cons_append]
    · rcases List.mem_append.mp hx with hx | hx
      · obtain ⟨part, hp, hx⟩ := List.mem_flatten.mp hx
        obtain ⟨j, hj, rfl⟩ := List.mem_take_iff_getElem.mp hp
        exact (hdiv.side key (List.getElem?_eq_getElem (by omega)) hx hk).1 (by omega)
      · exact hpre x hx k hk
    · rcases List.mem_append.mp hx with hx | hx
      · exact hpost x hx k hk
      · obtain ⟨part, hp, hx⟩ := List.mem_flatten.mp hx
        obtain ⟨j, hj, rfl⟩ := List.mem_drop_iff_getElem.mp hp
        exact (hdiv.side key (List.getElem?_eq_getElem (by omega)) hx hk).2 (by omega)
    · intro s' l' hint hothers hl' hpg hkeys
      have hnew := hctx s' l' hint (fun x hx => hothers x (by
        rcases List.mem_append.mp hx with hx | hx <;> simp [hx])) hl' hpg hkeys
      refine .inr ⟨cells, right, parts.set (slotFor cells key) (pre ++ l' :: post), hint _ _ _ h1,
        List.forall₂_iff_get.mpr ⟨by rw [List.length_set, children_length, hlen], fun j hj hj' => ?_⟩,
        fun j part hj x hx k hk => ?_, ?_⟩
      · rw [List.length_set] at hj'
        simp only [List.get_eq_getElem, List.getElem_set]
        split
        · next heq => subst heq; exact hnew
        · next hne =>
          refine TreeAt.frame hint (fun x hx => hothers x ?_) (hsub j hj hj')
          rcases Nat.lt_or_gt_of_ne hne with hlt | hgt
          · refine List.mem_append_right _ (List.mem_append_right _ (List.mem_flatten.mpr
              ⟨parts[j], List.mem_drop_iff_getElem.mpr ⟨j - (slotFor cells key + 1), by omega, ?_⟩, hx⟩))
            congr 1; omega
          · exact List.mem_append_left _ (List.mem_append_left _ (List.mem_flatten.mpr
              ⟨parts[j], List.mem_take_iff_getElem.mpr ⟨j, by omega, rfl⟩, hx⟩))
      · rw [List.getElem?_set] at hj
        split at hj
        · next heq =>
          subst heq
          cases hj
          have hold : ∀ y ∈ pre ++ l :: post, ∀ k ∈ y.keys, slotFor cells k = slotFor cells key :=
            fun y hy => hdiv _ _ (List.getElem?_eq_getElem hi) y (by rw [hpart]; exact hy)
          rcases List.mem_append.mp hx with hx | hx
          · exact hold x (List.mem_append_left _ hx) k hk
          · rcases List.mem_cons.mp hx with rfl | hx
            · rcases hkeys k hk with rfl | hk
              · rfl
              · exact hold l (by simp) k hk
            · exact hold x (by simp [hx]) k hk
        · exact hdiv j part hj x hx k hk
      · rw [List.set_eq_take_append_cons_drop, if_pos hi]
        simp only [List.flatten_append, List.flatten_cons, List.append_assoc, List.cons_append]

end

end Sqllite
