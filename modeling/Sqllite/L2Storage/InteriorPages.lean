import Sqllite.L2Storage.LeafPages
import Sqllite.L2Storage.Btree

/-!
# Interior pages of a table

`InteriorPage d h cells right` says what a reader finds on an interior page: its
type, its cells with their children and keys, and the rightmost child. It says
nothing of free space: the page `promote_root_split` makes does not keep its
content offset.

* `InteriorPage.findChild`: the child a key is looked for in.
* `InteriorPage.childPageAtSlot`: the cursor's reads.
-/
namespace Sqllite
open Lib.Run Lib.Span Lib.Slotted

/-- The bytes of an interior cell: child page, varint key. -/
structure InteriorTableCell (bytes : Bytes) (child : Nat) (key : Int) : Prop where
  split : ∃ kb u, bytes = be32 child ++ kb ∧ IsVarint kb u ∧ asI64 u = key ∧ child < 2 ^ 32

theorem InteriorTableCell.ne {bytes : Bytes} {child : Nat} {key : Int}
    (h : InteriorTableCell bytes child key) : bytes ≠ [] := by
  obtain ⟨kb, u, rfl, -⟩ := h.split
  simp [be32]

theorem InteriorTableCell.read {bytes : Bytes} {child : Nat} {key : Int}
    (h : InteriorTableCell bytes child key) {d : Bytes} {ptr : Nat} (hat : At d ptr bytes) :
    readInteriorTableCell d ptr = .ok (child, key) ∧
      ∃ v n, readVarint d (ptr + 4) = .ok (v, n) ∧ 4 + n = bytes.length := by
  obtain ⟨kb, u, rfl, hk, rfl, hc⟩ := h.split
  obtain ⟨h1, h2⟩ := At.append.mp hat
  rw [be32_length] at h2
  refine ⟨?_, u, kb.length, hk.read h2, by simp⟩
  rw [readInteriorTableCell, readU32Be_at h1 hc, Res.ok_bind, hk.read h2]
  rfl

theorem buildInteriorTableCell_ok (child : Nat) {key : Int} (hk : KeyOk key)
    (hc : child < 2 ^ 32) :
    ∃ bytes, buildInteriorTableCell child key = .ok bytes ∧ InteriorTableCell bytes child key ∧
      5 ≤ bytes.length ∧ bytes.length ≤ 12 := by
  have hu : asU64 key = key.toNat := asU64_of_nonneg hk.1 (by have := hk.2; omega)
  have hlt : key.toNat < 2 ^ 56 := by have := hk.1; have := hk.2; omega
  obtain ⟨kb, h1, h1', h8⟩ := writeVarint_ok hlt
  refine ⟨be32 child ++ kb, ?_, ⟨kb, key.toNat, rfl, isVarint_writeVarint hlt h1,
    asI64_toNat hk.1 (by have := hk.2; omega), hc⟩, ?_, ?_⟩
  · rw [buildInteriorTableCell, hu, h1]
    rfl
  · simp; omega
  · simp; omega

/-- A cell of an interior page: a child and the largest key below it. -/
abbrev InteriorCell := Cell (Nat × Int)

def InteriorCell.child (c : InteriorCell) : Nat := c.val.1

def InteriorCell.key (c : InteriorCell) : Int := c.val.2

structure InteriorPage (d : Bytes) (h : Nat) (cells : List InteriorCell) (right : Nat) :
    Prop where
  type : d[h]? = some PAGE_TYPE_INTERIOR_TABLE
  lists : Lists (interiorLayout h) d (cells.map (·.slot))
  cell : ∀ c ∈ cells, InteriorTableCell c.bytes c.child c.key
  rightmost : At d (h + 8) (be32 right)
  right_lt : right < 2 ^ 32

/-- The children of an interior page, from left to right. -/
def children (cells : List InteriorCell) (right : Nat) : List Nat := cells.map (·.child) ++ [right]

@[simp] theorem children_length (cells : List InteriorCell) (right : Nat) :
    (children cells right).length = cells.length + 1 := by
  simp [children]

/-- The slot of the child a key is looked for in. -/
def slotFor (cells : List InteriorCell) (key : Int) : Nat := cells.findIdx fun c => key ≤ c.key

theorem slotFor_le (cells : List InteriorCell) (key : Int) : slotFor cells key ≤ cells.length :=
  List.findIdx_le_length

/-! ## Reading -/

section
variable {d : Bytes} {h : Nat} {cells : List InteriorCell} {right : Nat}

theorem InteriorPage.count (hp : InteriorPage d h cells right) :
    readU16Be d (h + 3) = .ok cells.length := readCount hp.lists

theorem InteriorPage.byteAt (hp : InteriorPage d h cells right) :
    Sqllite.byteAt d h = .ok PAGE_TYPE_INTERIOR_TABLE := byteAt_at hp.type

theorem InteriorPage.ptr (hp : InteriorPage d h cells right) {i : Nat} {c : InteriorCell}
    (hi : cells[i]? = some c) : readU16Be d ((interiorLayout h).ptr i) = .ok c.ptr :=
  readPtr hp.lists hi

theorem InteriorPage.at (hp : InteriorPage d h cells right) {c : InteriorCell}
    (hc : c ∈ cells) : At d c.ptr c.bytes := hp.lists.cell _ (List.mem_map_of_mem hc)

theorem InteriorPage.readCell (hp : InteriorPage d h cells right) {c : InteriorCell}
    (hc : c ∈ cells) : readInteriorTableCell d c.ptr = .ok (c.child, c.key) :=
  ((hp.cell c hc).read (hp.at hc)).1

theorem InteriorPage.readRight (hp : InteriorPage d h cells right) :
    readU32Be d (h + 8) = .ok right := readU32Be_at hp.rightmost hp.right_lt

theorem InteriorPage.childOfCell (hp : InteriorPage d h cells right) {c : InteriorCell}
    (hc : c ∈ cells) : Sqllite.childOfCell d h c.ptr = .ok c.child := by
  rw [Sqllite.childOfCell, hp.byteAt, Res.ok_bind, if_pos rfl, hp.readCell hc]
  rfl

/-- Entry `slot` of the children. -/
theorem children_eq_some {slot child : Nat} (h : (children cells right)[slot]? = some child) :
    (∃ c, cells[slot]? = some c ∧ c.child = child) ∨ slot = cells.length ∧ right = child := by
  unfold children at h
  rcases Nat.lt_or_ge slot cells.length with hlt | hge
  · rw [List.getElem?_append_left (by rwa [List.length_map]), List.getElem?_map,
      List.getElem?_eq_getElem hlt] at h
    exact .inl ⟨_, List.getElem?_eq_getElem hlt, by simpa using h⟩
  · have hlt := (List.getElem?_eq_some_iff.mp h).1
    simp only [List.length_append, List.length_map, List.length_singleton] at hlt
    obtain rfl : slot = cells.length := by omega
    rw [List.getElem?_append_right (by simp)] at h
    exact .inr ⟨rfl, by simpa using h⟩

theorem InteriorPage.childPageAtSlot (hp : InteriorPage d h cells right) {slot child : Nat}
    (hs : (children cells right)[slot]? = some child) :
    Sqllite.childPageAtSlot d h slot = .ok child := by
  rw [Sqllite.childPageAtSlot, hp.count, Res.ok_bind]
  rcases children_eq_some hs with ⟨c, hc, rfl⟩ | ⟨rfl, rfl⟩
  · rw [if_pos (List.getElem?_eq_some_iff.mp hc).1, hp.ptr hc, Res.ok_bind,
      hp.childOfCell (List.mem_of_getElem? hc)]
  · rw [if_neg (Nat.lt_irrefl _), if_pos rfl, hp.readRight]

theorem InteriorPage.findChild (hp : InteriorPage d h cells right) (key : Int) :
    ∃ child, (children cells right)[slotFor cells key]? = some child ∧
      findChildPageTable d h key = .ok (child, slotFor cells key) := by
  have hf := findCell_spec hp.lists
    (f := fun i ptr => readInteriorTableCell d ptr >>= fun cell => pure (if key ≤ cell.2 then some (cell.1, i) else none))
    (g := fun i c => if decide (key ≤ InteriorCell.key c) = true then some (InteriorCell.child c, i)
      else none)
    (fun i c hc => by
      change (readInteriorTableCell d c.ptr >>= _) = _
      rw [hp.readCell hc, Res.ok_bind]
      simp only [decide_eq_true_eq]
      rfl) cells.length 0 (Nat.zero_add _)
  rw [List.drop_zero, firstSome_if] at hf
  rw [findChildPageTable, hp.count, Res.ok_bind]
  cases hi : cells.findIdx? fun c => decide (key ≤ InteriorCell.key c) with
  | none =>
    have hs : slotFor cells key = cells.length := List.findIdx_eq_length.mpr fun c hc => by
      simpa using List.findIdx?_eq_none_iff.mp hi c hc
    refine ⟨right, by simp [hs, children], ?_⟩
    rw [hi] at hf
    refine (congrArg (· >>= _) hf).trans ?_
    rw [Option.bind_none, Res.ok_bind]
    simp only [hp.readRight, Res.ok_bind, hs]
    rfl
  | some i =>
    obtain ⟨hlt, -, -⟩ := List.findIdx?_eq_some_iff_getElem.mp hi
    have hs : slotFor cells key = i := (List.findIdx?_eq_some_iff_findIdx_eq.mp hi).2
    refine ⟨InteriorCell.child cells[i], ?_, ?_⟩
    · rw [hs, children, List.getElem?_append_left (by rwa [List.length_map]), List.getElem?_map,
        List.getElem?_eq_getElem hlt]
      rfl
    · rw [hi, Option.bind_some, List.getElem?_eq_getElem hlt, Option.map_some] at hf
      refine (congrArg (· >>= _) hf).trans ?_
      simp only [Res.ok_bind, Nat.zero_add, hs]
      rfl

end

/-! ## Interior pages laid out afresh -/

/-- Bytes that cells take on an interior page, offsets included. -/
def interiorSize (cells : List InteriorCell) : Nat :=
  cells.length * 2 + total (cells.map (·.bytes))

theorem interiorPage_rebuild {d : Bytes} {h : Nat} (cells : List InteriorCell) (right : Nat)
    (h12 : h + 12 ≤ d.length) (hsmall : d.length < 65536)
    (htype : d[h]? = some PAGE_TYPE_INTERIOR_TABLE)
    (hcell : ∀ c ∈ cells, InteriorTableCell c.bytes c.child c.key) (hright : right < 2 ^ 32)
    (hfit : h + 12 + interiorSize cells ≤ d.length) :
    ∃ d', rebuildInteriorTablePage d h (cells.map (·.bytes)) right = .ok d' ∧
      d'.length = d.length ∧
      InteriorPage d' h (placed d.length cells) right := by
  unfold interiorSize at hfit
  obtain ⟨d', h1, h2, h3, h4, h5⟩ := rebuildPage_spec (interiorLayout_header h right)
    (cells.map (·.bytes)) h12 hsmall
    (by omega) (by rw [List.length_map]; simp only [interiorLayout]; omega)
  refine ⟨d', h1, h2, ⟨(h5 h (Nat.le_refl _)).trans htype, ?_, fun c hc => ?_, h4 right rfl,
    hright⟩⟩
  · rw [placed_slots]; exact h3.toLists
  · obtain ⟨c', hc', heq⟩ := mem_placed hc
    rw [heq]
    exact hcell c' hc'

end Sqllite
