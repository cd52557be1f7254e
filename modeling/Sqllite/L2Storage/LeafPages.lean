import Mathlib.Data.UInt
import Sqllite.L2Storage.PageSpec

/-!
# Leaf pages of a table

`LeafPage d h start cells` says what the bytes of a leaf hold: its type, its
cells with their keys and records, and the offset `start` of the lowest cell.
The page functions of the B-tree are restated on it.

* `LeafPage.insert`, `LeafPage.full`: a cell goes in by key, or there is no room.
* `LeafPage.update`, `LeafPage.delete`: one record replaced, one cell less.
* `leafPage_rebuild`: half of a split, from the cells `LeafPage.cellsWith` lists.
-/
namespace Sqllite
open Lib.Run Lib.Span Lib.Slotted

/-! ## Cells -/

/-- The bytes of a table cell: varint row id, varint record length, record. -/
structure TableCell (bytes : Bytes) (key : Int) (record : Bytes) : Prop where
  split : ∃ kb lb u, bytes = kb ++ (lb ++ record) ∧ IsVarint kb u ∧ asI64 u = key ∧
    IsVarint lb record.length

theorem TableCell.range {bytes record : Bytes} {key : Int} (h : TableCell bytes key record) :
    -2 ^ 63 ≤ key ∧ key < 2 ^ 63 := by
  obtain ⟨kb, lb, u, -, hk, rfl, -⟩ := h.split
  have := hk.lt
  unfold asI64
  split <;> omega

theorem TableCell.ne {bytes record : Bytes} {key : Int} (h : TableCell bytes key record) :
    bytes ≠ [] := by
  obtain ⟨kb, lb, u, rfl, hk, -, -⟩ := h.split
  exact List.append_ne_nil_of_left_ne_nil hk.ne _

/-- A table cell as the page functions read it. -/
theorem TableCell.read {bytes record : Bytes} {key : Int} (h : TableCell bytes key record)
    {d : Bytes} {ptr : Nat} (hat : At d ptr bytes) :
    ∃ off n, readCellRowid d ptr = .ok (key, off) ∧ readVarint d off = .ok (record.length, n) ∧
      At d (off + n) record ∧ off + n + record.length = ptr + bytes.length ∧ ptr ≤ off + n := by
  obtain ⟨kb, lb, u, rfl, hk, rfl, hl⟩ := h.split
  obtain ⟨h1, h2⟩ := At.append.mp hat
  obtain ⟨h2, h3⟩ := At.append.mp h2
  refine ⟨ptr + kb.length, lb.length, ?_, hl.read h2, h3, by simp only [List.length_append]; omega,
    by omega⟩
  rw [readCellRowid, hk.read h1]
  rfl

theorem TableCell.readPayload {bytes record : Bytes} {key : Int} (h : TableCell bytes key record)
    {d : Bytes} {ptr : Nat} (hat : At d ptr bytes) :
    ∃ off, readCellRowid d ptr = .ok (key, off) ∧ Sqllite.readPayload d off = .ok record := by
  obtain ⟨off, n, h1, h2, h3, h4, h5⟩ := h.read hat
  refine ⟨off, h1, ?_⟩
  have hle := hat.le h.ne
  rw [Sqllite.readPayload, h2, Res.ok_bind]
  exact slice_at h3 (by omega) rfl

/-- The record of a cell is replaced by one of the same length. -/
theorem TableCell.withRecord {bytes record r : Bytes} {key : Int} (h : TableCell bytes key record)
    (hr : r.length = record.length) :
    TableCell (bytes.take (bytes.length - record.length) ++ r) key r := by
  obtain ⟨kb, lb, u, rfl, hk, hu, hl⟩ := h.split
  refine ⟨kb, lb, u, ?_, hk, hu, hr ▸ hl⟩
  have hlen : (kb ++ (lb ++ record)).length - record.length = (kb ++ lb).length := by
    simp only [List.length_append]; omega
  rw [hlen, ← List.append_assoc, List.take_left, List.append_assoc]

/-- Keys the B-tree can store. -/
def KeyOk (key : Int) : Prop := 0 ≤ key ∧ key < 2 ^ 56

instance (key : Int) : Decidable (KeyOk key) := inferInstanceAs (Decidable (_ ∧ _))

theorem buildTableCell_ok {key : Int} (record : Bytes) (hk : KeyOk key)
    (hr : record.length < 2 ^ 56) :
    ∃ bytes, buildTableCell key record = .ok bytes ∧ TableCell bytes key record ∧
      bytes.length ≤ record.length + 16 := by
  have hu : asU64 key = key.toNat := asU64_of_nonneg hk.1 (by have := hk.2; omega)
  have hlt : key.toNat < 2 ^ 56 := by have := hk.1; have := hk.2; omega
  obtain ⟨kb, h1, _, h8⟩ := writeVarint_ok hlt
  obtain ⟨lb, h2, _, h8'⟩ := writeVarint_ok hr
  refine ⟨kb ++ (lb ++ record), ?_, ⟨kb, lb, key.toNat, rfl, isVarint_writeVarint hlt h1,
    asI64_toNat hk.1 (by have := hk.2; omega), isVarint_writeVarint hr h2⟩, ?_⟩
  · rw [buildTableCell, hu, h1, Res.ok_bind, h2]
    rfl
  · simp only [List.length_append]; omega

/-- The varint of a row id reads as a row id, the same exactly in the range of
`KeyOk`. -/
theorem rowid_isVarint {key : Int} (h0 : -2 ^ 63 ≤ key) (h1 : key < 2 ^ 63) {bs : Bytes}
    (hw : writeVarint (asU64 key) = .ok bs) :
    ∃ u, IsVarint bs u ∧ (asI64 u = key ↔ KeyOk key) := by
  obtain ⟨u, hu, hiff⟩ := writeVarint_isVarint hw
  have hlt := hu.lt
  refine ⟨u, hu, ?_⟩
  have hback : asI64 u = key ↔ u = asU64 key := by unfold asI64 asU64; split <;> omega
  rw [hback, hiff, KeyOk, asU64]
  omega

/-- A row id comes back from the cell it is encoded in, wherever the cell stands. -/
def RowidSurvives (key : Int64) (record : Bytes) : Prop :=
  ∃ cell, buildTableCell key.toInt record = .ok cell ∧
    ∀ front rest, ∃ off, readCellRowid (front ++ (cell ++ rest)) front.length = .ok (key.toInt, off)

theorem rowidSurvives_iff (key : Int64) {record : Bytes} (hr : record.length < 2 ^ 63) :
    RowidSurvives key record ↔ KeyOk key.toInt := by
  constructor
  · intro h
    obtain ⟨cell, hb, hread⟩ := h
    obtain ⟨k, hk, hb⟩ := Res.bind_eq_ok.mp hb
    obtain ⟨n, -, hb⟩ := Res.bind_eq_ok.mp hb
    cases hb
    obtain ⟨u, hu, hiff⟩ := rowid_isVarint key.le_toInt key.toInt_lt hk
    obtain ⟨off, hread⟩ := hread [] []
    have hat : At ([] ++ ((k ++ (n ++ record)) ++ [])) ([] : Bytes).length k := by
      rw [List.append_assoc]
      exact At.middle [] k _
    rw [readCellRowid, hu.read hat] at hread
    exact hiff.mp (congrArg Prod.fst (Except.ok.inj hread))
  · intro hk
    have hlt : asU64 key.toInt < 2 ^ 56 := by
      have := hk.1
      have := hk.2
      unfold asU64
      omega
    obtain ⟨k, hkw, -⟩ := writeVarint_ok hlt
    obtain ⟨n, hnw, -⟩ := writeVarint_total hr
    obtain ⟨u, hu, hiff⟩ := rowid_isVarint key.le_toInt key.toInt_lt hkw
    refine ⟨k ++ (n ++ record), ?_, fun front rest => ⟨front.length + k.length, ?_⟩⟩
    · rw [buildTableCell, hkw, Res.ok_bind, hnw]
      rfl
    · have hat : At (front ++ ((k ++ (n ++ record)) ++ rest)) front.length k := by
        rw [List.append_assoc]
        exact At.middle front k _
      rw [readCellRowid, hu.read hat, ← hiff.mpr hk]
      rfl

/-- Of the `u64` values exactly those below 2^56 survive the encoding, of the row
ids those that are not negative besides. -/
theorem encoding_survives_iff (v : UInt64) (key : Int64) (record : Bytes) :
    (VarintSurvives v ↔ v.toNat < 2 ^ 56) ∧
      (record.length < 2 ^ 63 → (RowidSurvives key record ↔ KeyOk key.toInt)) :=
  ⟨varintSurvives_iff v, fun hr => rowidSurvives_iff key hr⟩

theorem encoding_survives_iff_seven : VarintSurvives 300 ∧ RowidSurvives 7 [1] :=
  ⟨(encoding_survives_iff 300 7 [1]).1.mpr (by decide),
    ((encoding_survives_iff 300 7 [1]).2 (by decide)).mpr (by decide)⟩

/-- 2^56 reads as 2^57, and a negative row id overruns the writer's scratch array. -/
theorem encoding_loses : ¬ VarintSurvives (2 ^ 56) ∧ ¬ RowidSurvives (-1) [] := by
  constructor
  · intro h
    obtain ⟨bs, hw, -, hread⟩ := h
    have hbs : bs = [129, 128, 128, 128, 128, 128, 128, 128, 0] := by
      have hw' : writeVarint (2 ^ 56) = .ok bs := hw
      have hval : writeVarint (2 ^ 56) = .ok [129, 128, 128, 128, 128, 128, 128, 128, 0] := by
        decide +kernel
      exact Except.ok.inj (hw'.symm.trans hval)
    have hread' := hread [] []
    rw [hbs] at hread'
    exact absurd hread' (by decide +kernel)
  · intro h
    obtain ⟨cell, hb, -⟩ := h
    have hpanic : buildTableCell (-1) [] = panicked := by decide +kernel
    cases hpanic.symm.trans hb

theorem buildTableCell_withRecord {key : Int} {record r bytes : Bytes}
    (h : buildTableCell key record = .ok bytes) (hr : r.length = record.length) :
    buildTableCell key r = .ok (bytes.take (bytes.length - record.length) ++ r) := by
  obtain ⟨k, hk, h⟩ := Res.bind_eq_ok.mp h
  obtain ⟨n, hn, h⟩ := Res.bind_eq_ok.mp h
  cases h
  have hlen : (k ++ (n ++ record)).length - record.length = (k ++ n).length := by
    simp only [List.length_append]; omega
  rw [buildTableCell, hk, Res.ok_bind, hr, hn, Res.ok_bind, hlen, ← List.append_assoc k n record,
    List.take_left, List.append_assoc]
  rfl

/-! ## Pages -/

/-- A cell of a page: where it stands, its bytes and what they mean. -/
structure Cell (α : Type) where
  ptr : Nat
  bytes : Bytes
  val : α
  deriving DecidableEq, Repr

def Cell.slot {α : Type} (c : Cell α) : Slot := (c.ptr, c.bytes)

/-- A row: key and record. -/
abbrev Row := Int × Bytes

abbrev LeafCell := Cell Row

def LeafCell.key (c : LeafCell) : Int := c.val.1

def LeafCell.record (c : LeafCell) : Bytes := c.val.2

structure LeafPage (d : Bytes) (h start : Nat) (cells : List LeafCell) : Prop where
  type : d[h]? = some PAGE_TYPE_LEAF_TABLE
  holds : Holds (leafLayout h) d start (cells.map (·.slot))
  cell : ∀ c ∈ cells, TableCell c.bytes c.key c.record

/-! ## Cells laid out afresh -/

section
variable {α β : Type}

/-- The cells put one after another up to `top`. -/
def placed (top : Nat) : List (Cell α) → List (Cell α)
  | [] => []
  | c :: cs => { c with ptr := top - total ((c :: cs).map (·.bytes)) } :: placed top cs

theorem placed_slots (top : Nat) : ∀ cells : List (Cell α),
    (placed top cells).map (·.slot) = freshSlots top (cells.map (·.bytes))
  | [] => rfl
  | c :: cs => by
    rw [placed, List.map_cons, List.map_cons, freshSlots, placed_slots top cs]
    rfl

@[simp] theorem placed_length (top : Nat) : ∀ cells : List (Cell α),
    (placed top cells).length = cells.length
  | [] => rfl
  | c :: cs => by rw [placed, List.length_cons, List.length_cons, placed_length top cs]

/-- What does not depend on the place is what it was. -/
theorem placed_map (top : Nat) {f : Cell α → β} (hf : ∀ c ptr, f { c with ptr := ptr } = f c) :
    ∀ cells : List (Cell α), (placed top cells).map f = cells.map f
  | [] => rfl
  | c :: cs => by rw [placed, List.map_cons, placed_map top hf cs, hf, List.map_cons]

theorem mem_placed {top : Nat} {cells : List (Cell α)} {c : Cell α} (h : c ∈ placed top cells) :
    ∃ c' ∈ cells, c = { c' with ptr := c.ptr } := by
  induction cells with
  | nil => cases h
  | cons a cells ih =>
    rcases List.mem_cons.mp h with rfl | h
    · exact ⟨a, List.mem_cons_self, rfl⟩
    · obtain ⟨c', hc', heq⟩ := ih h
      exact ⟨c', List.mem_cons_of_mem _ hc', heq⟩

end

/-! ## Leaf pages -/

section
variable {d : Bytes} {h start : Nat} {cells : List LeafCell}

theorem LeafPage.count (hp : LeafPage d h start cells) : readU16Be d (h + 3) = .ok cells.length :=
  readCount hp.holds.toLists

theorem LeafPage.ptr (hp : LeafPage d h start cells) {i : Nat} {c : LeafCell}
    (hi : cells[i]? = some c) : readU16Be d ((leafLayout h).ptr i) = .ok c.ptr :=
  readPtr hp.holds.toLists hi

theorem LeafPage.at (hp : LeafPage d h start cells) {c : LeafCell} (hc : c ∈ cells) :
    At d c.ptr c.bytes := hp.holds.cell _ (List.mem_map_of_mem hc)

theorem LeafPage.byteAt (hp : LeafPage d h start cells) :
    Sqllite.byteAt d h = .ok PAGE_TYPE_LEAF_TABLE := byteAt_at hp.type

/-- Where the payload of a cell starts. -/
def payloadOff (d : Bytes) (c : LeafCell) : Nat :=
  match readCellRowid d c.ptr with
  | .ok (_, off) => off
  | .error _ => 0

theorem LeafPage.readCell (hp : LeafPage d h start cells) {c : LeafCell} (hc : c ∈ cells) :
    readCellRowid d c.ptr = .ok (c.key, payloadOff d c) ∧
      readPayload d (payloadOff d c) = .ok c.record := by
  obtain ⟨off, h1, h2⟩ := (hp.cell c hc).readPayload (hp.at hc)
  have hoff : payloadOff d c = off := by rw [payloadOff, h1]
  rw [hoff]
  exact ⟨h1, h2⟩

/-- The cell of the row with a key. -/
theorem LeafPage.findKey {α : Type} (hp : LeafPage d h start cells) (key : Int)
    (r : Nat → Nat → Int × Nat → α) :
    findCell (leafLayout h) d (fun i ptr => do
        let (rowid, off) ← readCellRowid d ptr
        pure (if rowid = key then some (r i ptr (rowid, off)) else none)) cells.length 0 =
      .ok ((cells.findIdx? fun c => c.key = key).bind fun j => (cells[j]?).map fun c =>
        r j c.ptr (c.key, payloadOff d c)) := by
  have hf := findCell_spec hp.holds.toLists (f := fun i ptr => do
      let (rowid, off) ← readCellRowid d ptr
      pure (if rowid = key then some (r i ptr (rowid, off)) else none))
    (g := fun i c => if decide (c.key = key) = true then some (r i c.ptr (c.key, payloadOff d c))
      else none)
    (fun i c hc => by
      change (readCellRowid d c.ptr >>= _) = _
      rw [(hp.readCell hc).1, Res.ok_bind]
      simp only [decide_eq_true_eq]
      rfl) cells.length 0 (Nat.zero_add _)
  rw [hf, List.drop_zero, firstSome_if]
  simp only [Nat.zero_add]

theorem LeafPage.find (hp : LeafPage d h start cells) (key : Int) :
    findCellInPageTable d h key =
      .ok (if ∃ c ∈ cells, c.key = key then some key else none) := by
  rw [findCellInPageTable, hp.count, Res.ok_bind]
  have hk := hp.findKey key fun _ _ p => p.1
  refine Eq.trans ?_ (hk.trans ?_)
  · rfl
  · cases hfi : cells.findIdx? fun c => decide (c.key = key) with
    | none =>
      rw [List.findIdx?_eq_none_iff] at hfi
      rw [if_neg (by rintro ⟨c, hc, hck⟩; simpa [hck] using hfi c hc)]
      rfl
    | some i =>
      obtain ⟨hlt, hki, -⟩ := List.findIdx?_eq_some_iff_getElem.mp hfi
      simp only [decide_eq_true_eq] at hki
      rw [if_pos ⟨cells[i], List.getElem_mem hlt, hki⟩, Option.bind_some,
        List.getElem?_eq_getElem hlt, Option.map_some, hki]

/-- The position of a new key: in front of the first larger one. -/
def insertPos (cells : List LeafCell) (key : Int) : Nat := cells.findIdx fun c => key < c.key

theorem LeafPage.before (hp : LeafPage d h start cells) (key : Int) : ∀ c ∈ cells,
    beforeLeafCell d key c.slot.1 = .ok (decide (key < c.key)) := fun c hc => by
  change (readCellRowid d c.ptr >>= _) = _
  rw [(hp.readCell hc).1]
  rfl

theorem LeafPage.full (hp : LeafPage d h start cells) (hlt : start < 65536) {bytes : Bytes} {key : Int}
    (hfull : start - bytes.length < h + 8 + (cells.length + 1) * 2 + 1) :
    tryInsertLeafCell d h bytes key = .ok none :=
  tryInsertCell_full hp.holds hlt (hp.before key) hfull

theorem LeafPage.insert (hp : LeafPage d h start cells) (hlt : start < 65536) {bytes record : Bytes}
    {key : Int} (hcell : TableCell bytes key record)
    (hroom : h + 8 + (cells.length + 1) * 2 + 1 ≤ start - bytes.length) :
    ∃ d', tryInsertLeafCell d h bytes key = .ok (some d') ∧ d'.length = d.length ∧
      LeafPage d' h (start - bytes.length) (cells.insertIdx (insertPos cells key)
        ⟨start - bytes.length, bytes, (key, record)⟩) := by
  obtain ⟨d', h1, h2, h3⟩ := tryInsertCell_spec hp.holds hlt (hp.before key) hroom
  refine ⟨d', h1, h3.1, ⟨?_, ?_, fun c hc => ?_⟩⟩
  · rw [← At.singleton]
    exact h3.2 _ _ (.inl (by simp [leafLayout])) (At.singleton.mpr hp.type)
  · rw [List.map_insertIdx]; exact h2
  · rcases (List.mem_insertIdx (List.findIdx_le_length)).mp hc with rfl | hc
    · exact hcell
    · exact hp.cell c hc

theorem LeafPage.delete_none (hp : LeafPage d h start cells) {key : Int}
    (hno : (cells.findIdx? fun c => c.key = key) = none) : deleteCell d h key = .ok none := by
  have hk := hp.findKey key fun i _ _ => i
  rw [hno] at hk
  rw [deleteCell, hp.count, Res.ok_bind]
  exact (congrArg (· >>= _) hk).trans rfl

theorem LeafPage.delete (hp : LeafPage d h start cells) {key : Int} {i : Nat}
    (hi : (cells.findIdx? fun c => c.key = key) = some i) :
    ∃ d', deleteCell d h key = .ok (some d') ∧ d'.length = d.length ∧
      LeafPage d' h start (cells.eraseIdx i) := by
  obtain ⟨hlt, -, -⟩ := List.findIdx?_eq_some_iff_getElem.mp hi
  have hk := hp.findKey key fun i _ _ => i
  rw [hi, Option.bind_some, List.getElem?_eq_getElem hlt, Option.map_some] at hk
  have hroom := hp.holds.room
  have htop := hp.holds.top
  have hptr : ∀ j, (leafLayout h).ptr j = h + 8 + j * 2 := fun _ => rfl
  simp only [leafLayout, List.length_map] at hroom
  obtain ⟨d1, h1, hat1, hout1⟩ := shiftDown_spec (L := leafLayout h)
    (v := fun j => ((cells[j]?).map (·.ptr)).getD 0) (cells.length - 1 - i) i d
    (fun j hj hjk => by
      have hjl : j < cells.length := by omega
      have hs : (cells.map (·.slot))[j]? = some (cells[j].ptr, cells[j].bytes) := by
        rw [List.getElem?_map, List.getElem?_eq_getElem hjl]; rfl
      simp only [List.getElem?_eq_getElem hjl, Option.map_some, Option.getD_some]
      exact ⟨hp.holds.ptr j _ _ hs, hp.holds.ptr_lt hs⟩)
    (by rw [hptr]; omega)
  rw [show i + (cells.length - 1 - i) = cells.length - 1 by omega] at hat1 hout1
  obtain ⟨d2, h2, hat2, hout2⟩ := writeU16Be_outside d1 (h + 3)
    (cells.length - 1) (by rw [hout1.1]; omega)
  rw [hptr, hptr] at hout1
  have hlen : d2.length = d.length := hout2.1.trans hout1.1
  refine ⟨d2, ?_, hlen, ⟨?_, ?_, fun c hc => hp.cell c (List.mem_of_mem_eraseIdx hc)⟩⟩
  · rw [deleteCell, hp.count, Res.ok_bind]
    refine (congrArg (· >>= _) hk).trans ?_
    simp only [Res.ok_bind, h1, h2]
    rfl
  · rw [hout2.2 h (by omega), hout1.2 h (by omega)]
    exact hp.type
  · rw [← List.eraseIdx_map]
    refine hp.holds.erase (by rw [List.length_map]; exact hlt) hlen
      (by rw [List.length_map]; exact hat2) ?_ (fun j q b hj => ?_) (fun o bs ho hat => ?_)
    · exact (hout2.at_iff (.inr (by simp [leafLayout]))).mpr
        ((hout1.at_iff (.inl (by simp [leafLayout]; omega))).mpr hp.holds.content)
    · have hout2' : ∀ bs, At d1 ((leafLayout h).ptr j) bs → At d2 ((leafLayout h).ptr j) bs :=
        fun bs hat => (hout2.at_iff (.inr (by rw [hptr]; omega))).mpr hat
      rw [List.getElem?_eraseIdx] at hj
      split at hj
      · next hji =>
        exact hout2' _ ((hout1.at_iff (.inl (by rw [be16_length, hptr]; omega))).mpr
          (hp.holds.ptr j q b hj))
      · next hji =>
        have hjl := (List.getElem?_eq_some_iff.mp hj).1
        rw [List.length_map] at hjl
        have hat := hat1 j (by omega) (by omega)
        rw [List.getElem?_map, List.getElem?_eq_getElem hjl] at hj
        simp only [List.getElem?_eq_getElem hjl, Option.map_some, Option.getD_some] at hat
        cases hj
        exact hout2' _ hat
    · exact (hout2.at_iff (.inr (by omega))).mpr ((hout1.at_iff (.inr (by omega))).mpr hat)

/-- The cell with another record of the same length. -/
def LeafCell.withRecord (c : LeafCell) (record : Bytes) : LeafCell :=
  { c with bytes := c.bytes.take (c.bytes.length - c.record.length) ++ record, val := (c.key, record) }

theorem LeafPage.update_none (hp : LeafPage d h start cells) {key : Int} {record : Bytes}
    (hno : (cells.findIdx? fun c => c.key = key) = none) : updateCell d h key record = .ok none := by
  have hk := hp.findKey key fun _ _ p => p.2
  rw [hno] at hk
  rw [updateCell, hp.count, Res.ok_bind]
  exact (congrArg (· >>= _) hk).trans rfl

/-- A record of another length is left to removal and insertion. -/
theorem LeafPage.update_other (hp : LeafPage d h start cells) {key : Int} {record : Bytes} {i : Nat}
    {c : LeafCell} (hi : (cells.findIdx? fun c => c.key = key) = some i) (hc : cells[i]? = some c)
    (hlen : record.length ≠ c.record.length) : updateCell d h key record = .ok none := by
  have hk := hp.findKey key fun _ _ p => p.2
  rw [hi, Option.bind_some, hc, Option.map_some] at hk
  have hmem := List.mem_of_getElem? hc
  obtain ⟨off, n, h1, h2, -, -, -⟩ := (hp.cell c hmem).read (hp.at hmem)
  have hoff : payloadOff d c = off := by rw [payloadOff, h1]
  rw [updateCell, hp.count, Res.ok_bind]
  refine (congrArg (· >>= _) hk).trans ?_
  simp only [Res.ok_bind, hoff, h2]
  rw [if_pos hlen]
  rfl

theorem LeafPage.update (hp : LeafPage d h start cells) {key : Int} {record : Bytes} {i : Nat}
    {c : LeafCell} (hi : (cells.findIdx? fun c => c.key = key) = some i) (hc : cells[i]? = some c)
    (hlen : record.length = c.record.length) :
    ∃ d', updateCell d h key record = .ok (some d') ∧ d'.length = d.length ∧
      LeafPage d' h start (cells.set i (c.withRecord record)) := by
  have hk := hp.findKey key fun _ _ p => p.2
  rw [hi, Option.bind_some, hc, Option.map_some] at hk
  have hmem := List.mem_of_getElem? hc
  have hcell := hp.cell c hmem
  have hat := hp.at hmem
  obtain ⟨off, n, h1, h2, h3, h4, h5⟩ := hcell.read hat
  have hoff : payloadOff d c = off := by rw [payloadOff, h1]
  have hle := hat.le hcell.ne
  have hlow := hp.holds.low _ (List.mem_map_of_mem hmem)
  have hroom := hp.holds.room
  simp only [Cell.slot, leafLayout, List.length_map] at hlow hroom
  obtain ⟨d', hw, hat', hout⟩ := copyInto_outside d (off + n) record (by omega)
  have htake : (c.bytes.take (c.bytes.length - c.record.length)).length =
      c.bytes.length - c.record.length := List.length_take_of_le (Nat.sub_le _ _)
  refine ⟨d', ?_, hout.1, ⟨?_, ?_, fun x hx => ?_⟩⟩
  · rw [updateCell, hp.count, Res.ok_bind]
    refine (congrArg (· >>= _) hk).trans ?_
    simp only [Res.ok_bind, hoff, h2]
    rw [if_neg (by omega), hw]
    rfl
  · rw [hout.2 h (by omega)]
    exact hp.type
  · rw [List.map_set]
    refine hp.holds.set (p := c.ptr) (c := c.bytes) (by rw [List.getElem?_map, hc]; rfl) ?_ hout.1 ?_
      fun o bs ho hbs => (hout.at_iff (by omega)).mpr hbs
    · rw [LeafCell.withRecord, List.length_append, htake]; omega
    · have hend : c.ptr + (c.bytes.length - c.record.length) = off + n := by omega
      rw [← List.take_append_drop (c.bytes.length - c.record.length) c.bytes] at hat
      refine At.append.mpr ⟨(hout.at_iff (.inl ?_)).mpr (At.append.mp hat).1, ?_⟩
      · rw [htake, hend]
      · rw [htake, hend]; exact hat'
  · rcases List.mem_or_eq_of_mem_set hx with hx | rfl
    · exact hp.cell x hx
    · exact hcell.withRecord hlen

end

/-! ## Leaf pages laid out afresh -/

/-- Bytes that cells take on a leaf, offsets included. -/
def leafSize (cells : List LeafCell) : Nat := cells.length * 2 + total (cells.map (·.bytes))

theorem leafPage_rebuild {d : Bytes} {h : Nat} (cells : List LeafCell) (h12 : h + 12 ≤ d.length)
    (hsmall : d.length < 65536) (htype : d[h]? = some PAGE_TYPE_LEAF_TABLE)
    (hcell : ∀ c ∈ cells, TableCell c.bytes c.key c.record)
    (hfit : h + 8 + leafSize cells ≤ d.length) :
    ∃ d', rebuildLeafTablePage d h (cells.map fun c => (c.key, c.bytes)) = .ok d' ∧
      d'.length = d.length ∧
      LeafPage d' h (d.length - total (cells.map (·.bytes))) (placed d.length cells) := by
  unfold leafSize at hfit
  obtain ⟨d', h1, h2, h3, -, h5⟩ := rebuildPage_spec (leafLayout_header h) (cells.map (·.bytes)) h12
    hsmall
    (by omega) (by rw [List.length_map]; simp only [leafLayout]; omega)
  refine ⟨d', ?_, h2, ⟨(h5 h (Nat.le_refl _)).trans htype, ?_, fun c hc => ?_⟩⟩
  · rw [rebuildLeafTablePage, List.map_map]
    exact h1
  · rw [placed_slots]; exact h3
  · obtain ⟨c', hc', heq⟩ := mem_placed hc
    rw [heq]
    exact hcell c' hc'

/-- The cells of a leaf by key. -/
def sortCells (cells : List LeafCell) : List LeafCell :=
  cells.insertionSort fun a b => a.key ≤ b.key

/-- The cell as a split encodes it again. -/
def LeafCell.recoded (c : LeafCell) : LeafCell :=
  { c with bytes := (buildTableCell c.key c.record).toOption.getD [] }

@[simp] theorem LeafCell.recoded_val (c : LeafCell) : c.recoded.val = c.val := rfl

theorem LeafCell.recoded_eq {c : LeafCell} (h : buildTableCell c.key c.record = .ok c.bytes) :
    c.recoded = c := by
  rw [recoded, h]
  rfl

/-- The cells of a leaf, encoded again, with a new one. -/
theorem LeafPage.cellsWith {d : Bytes} {h start : Nat} {cells : List LeafCell}
    (hp : LeafPage d h start cells)
    (hb : ∀ c ∈ cells, buildTableCell c.key c.record = .ok c.recoded.bytes) (c : LeafCell) :
    leafCellsWith d h c.bytes c.key =
      .ok ((sortCells (cells.map LeafCell.recoded ++ [c])).map fun c => (c.key, c.bytes)) := by
  have hrec : ∀ x ∈ cells, recode d x.slot.1 = .ok (x.key, x.recoded.bytes) := fun x hx => by
    change recode d x.ptr = _
    obtain ⟨h1, h2⟩ := hp.readCell hx
    rw [recode, h1, Res.ok_bind]
    simp only [h2, Res.ok_bind, hb x hx]
    rfl
  rw [leafCellsWith, hp.count, Res.ok_bind, collectCells_spec hp.holds.toLists hrec _ 0 (Nat.zero_add _),
    Res.ok_bind, List.drop_zero, sortCells, List.map_insertionSort _
      (fun a b : Int × Bytes => a.1 ≤ b.1) _ _ fun _ _ _ _ => Iff.rfl, List.map_append, List.map_map]
  rfl

/-! ## Cells in order -/

theorem insertPos_le (cells : List LeafCell) (key : Int) : insertPos cells key ≤ cells.length :=
  List.findIdx_le_length

/-- The cells of a leaf with one more, where the insertion puts it. -/
theorem insertIdx_sorted (c : LeafCell) : ∀ {cells : List LeafCell},
    (cells.map (·.key)).Pairwise (· < ·) → c.key ∉ cells.map (·.key) →
    ((cells.insertIdx (insertPos cells c.key) c).map (·.key)).Pairwise (· < ·)
  | [], _, _ => List.pairwise_singleton _ _
  | a :: cells, h, hno => by
    rw [List.map_cons, List.pairwise_cons] at h
    rw [List.map_cons, List.mem_cons, not_or] at hno
    rw [insertPos, List.findIdx_cons]
    by_cases hlt : c.key < a.key
    · simp only [hlt, decide_true, cond_true, List.insertIdx_zero, List.map_cons,
        List.pairwise_cons]
      refine ⟨fun k hk => ?_, h⟩
      rcases List.mem_cons.mp hk with rfl | hk
      · exact hlt
      · exact Int.lt_trans hlt (h.1 k hk)
    · simp only [hlt, decide_false, cond_false, List.insertIdx_succ_cons, List.map_cons,
        List.pairwise_cons]
      refine ⟨fun k hk => ?_, insertIdx_sorted c h.2 hno.2⟩
      obtain ⟨x, hx, rfl⟩ := List.mem_map.mp hk
      rcases List.eq_or_mem_of_mem_insertIdx hx with rfl | hx
      · omega
      · exact h.1 _ (List.mem_map_of_mem hx)

theorem sortCells_sorted (c : LeafCell) {cells : List LeafCell}
    (h : (cells.map (·.key)).Pairwise (· < ·)) (hno : c.key ∉ cells.map (·.key)) :
    ((sortCells (cells ++ [c])).map (·.key)).Pairwise (· < ·) := by
  have hperm : (sortCells (cells ++ [c])).Perm (cells ++ [c]) := List.perm_insertionSort _ _
  have hnd : ((sortCells (cells ++ [c])).map (·.key)).Nodup := by
    refine (hperm.map _).nodup_iff.mpr ?_
    rw [List.map_append, List.map_singleton]
    refine List.nodup_append.mpr ⟨h.imp (fun {_ _} h => Int.ne_of_lt h), List.nodup_singleton _, ?_⟩
    rintro a ha b hb rfl
    exact hno (List.mem_singleton.mp hb ▸ ha)
  have hle : (sortCells (cells ++ [c])).Pairwise fun a b => a.key ≤ b.key := by
    have : Std.Total fun a b : LeafCell => a.key ≤ b.key := ⟨fun a b => Int.le_total _ _⟩
    have : IsTrans LeafCell fun a b => a.key ≤ b.key := ⟨fun _ _ _ => Int.le_trans⟩
    exact List.pairwise_insertionSort _ _
  have hle' := List.pairwise_map.mpr hle
  exact (hle'.and hnd).imp fun ⟨h1, h2⟩ => by omega

end Sqllite
