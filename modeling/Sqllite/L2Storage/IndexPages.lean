import Sqllite.L2Storage.InsertSpec

/-!
# Index leaves (`storage/btree.rs`)

A leaf of an index holds payloads in the order of their bytes, each in a cell with its
length in front. `PayloadPage` is such a leaf; it is `Packed` if its cells fill the end
of the page without gaps, as insertion and splits leave them.

* `Packed.insert`, `Packed.full`: a cell is taken in exactly if there is room for it.
* `Packed.lower`: the half that stays in a leaf that is split.
* `lower_fits`: short cells always leave room for the header of that half.
-/
namespace Sqllite
open Lib Lib.Run Lib.Span Lib.Slotted

/-- Whether an entry goes in front of the one at `ptr`. -/
def beforeEntry (data payload : Bytes) (ptr : Nat) : Result Bool := do
  let existing ← readIndexPayload data ptr
  pure (payload < existing)

abbrev PayloadCell := Cell Bytes

structure PayloadPage (d : Bytes) (h start : Nat) (cells : List PayloadCell) : Prop where
  type : d[h]? = some PAGE_TYPE_LEAF_INDEX
  holds : Holds (leafLayout h) d start (cells.map (·.slot))
  near : start < 65536
  cell : ∀ c ∈ cells, buildIndexCell c.val = .ok c.bytes

section
variable {d : Bytes} {h start : Nat} {cells : List PayloadCell}

theorem PayloadPage.byteAt (hp : PayloadPage d h start cells) :
    Sqllite.byteAt d h = .ok PAGE_TYPE_LEAF_INDEX := byteAt_at hp.type

theorem PayloadPage.count (hp : PayloadPage d h start cells) :
    readU16Be d (h + 3) = .ok cells.length := readCount hp.holds.toLists

theorem readIndexPayload_at {d payload bytes : Bytes} {ptr : Nat} (hd : d.length ≤ 65536)
    (hb : buildIndexCell payload = .ok bytes) (hat : At d ptr bytes)
    (hhigh : ptr + bytes.length ≤ d.length) : readIndexPayload d ptr = .ok payload := by
  obtain ⟨n, hn, hb⟩ := Res.bind_eq_ok.mp hb
  have hbytes : n ++ payload = bytes := Except.ok.inj hb
  rw [← hbytes, List.length_append] at hhigh
  rw [← hbytes] at hat
  obtain ⟨hvar, hpay⟩ := At.append.mp hat
  rw [readIndexPayload, readVarint_writeVarint (by omega) hn hvar, Res.ok_bind]
  dsimp only
  rw [usizeAdd, if_pos (by omega), Res.ok_bind, if_neg (by omega), slice_at hpay (by omega) rfl]

theorem PayloadPage.readPayload (hp : PayloadPage d h start cells) {c : PayloadCell}
    (hc : c ∈ cells) : readIndexPayload d c.ptr = .ok c.val :=
  readIndexPayload_at hp.holds.small (hp.cell c hc) (hp.holds.cell _ (List.mem_map_of_mem hc))
    (hp.holds.high _ (List.mem_map_of_mem hc))

/-- What a reader of the leaf lists. -/
theorem PayloadPage.payloads (hp : PayloadPage d h start cells) :
    collectCells (leafLayout h) d (readIndexPayload d) cells.length 0 = .ok (cells.map (·.val)) :=
  collectCells_spec hp.holds.toLists (fun _ hc => hp.readPayload hc) _ 0
    (Nat.zero_add _)

theorem PayloadPage.before (hp : PayloadPage d h start cells) (payload : Bytes) : ∀ c ∈ cells,
    beforeEntry d payload c.slot.1 = .ok (decide (payload < c.val)) := fun c hc => by
  change (readIndexPayload d c.ptr >>= _) = _
  rw [hp.readPayload hc]
  rfl

end

/-! ## Leaves without gaps -/

/-- An index leaf of `size` bytes, not page 1, with its cells at the end. -/
structure Packed (size : Nat) (d : Bytes) (cells : List PayloadCell) : Prop where
  length : d.length = size
  page : PayloadPage d 0 (size - total (cells.map (·.bytes))) cells

/-- There is room for one more cell of `n` bytes. -/
def RoomFor (size : Nat) (cells : List PayloadCell) (n : Nat) : Prop :=
  total (cells.map (·.bytes)) + n + 2 * (cells.length + 1) + 9 ≤ size

instance (size : Nat) (cells : List PayloadCell) (n : Nat) : Decidable (RoomFor size cells n) :=
  inferInstanceAs (Decidable (_ ≤ _))

section
variable {size : Nat} {d bytes payload : Bytes} {cells : List PayloadCell}

theorem Packed.room (hp : Packed size d cells) :
    total (cells.map (·.bytes)) + 2 * cells.length + 8 ≤ size := by
  have hroom := hp.page.holds.room
  have hsmall := hp.page.holds.top
  rw [List.length_map] at hroom
  simp only [leafLayout] at hroom
  omega

theorem Packed.empty (hd : Btree.Blank d 0 size PAGE_TYPE_LEAF_INDEX) (h512 : 512 ≤ size)
    (hmax : size < 65536) : Packed size d [] where
  length := hd.length
  page := {
    type := hd.type
    holds := hd.holds (Nat.zero_le _) h512 (by omega)
    near := hmax
    cell := fun c hc => by cases hc }

/-- The cell that the leaf takes in. -/
def newCell (size : Nat) (cells : List PayloadCell) (bytes payload : Bytes) : PayloadCell :=
  ⟨size - total (cells.map (·.bytes)) - bytes.length, bytes, payload⟩

theorem Packed.insert (hp : Packed size d cells) (hb : buildIndexCell payload = .ok bytes)
    (hroom : RoomFor size cells bytes.length) : ∃ d' cells',
    tryInsertLeafCellIndex d 0 bytes payload = .ok (some d') ∧ Packed size d' cells' ∧
      cells'.Perm (newCell size cells bytes payload :: cells) := by
  have hcell : (leafLayout 0).ptr (cells.length + 1) + 1 ≤
      size - total (cells.map (·.bytes)) - bytes.length := by
    unfold RoomFor at hroom
    simp only [leafLayout, Layout.ptr]
    omega
  obtain ⟨d', hrun, hholds, hkeep⟩ := tryInsertCell_spec hp.page.holds hp.page.near
    (hp.page.before payload) hcell
  have hle : cells.findIdx (fun c => decide (payload < c.val)) ≤ cells.length := List.findIdx_le_length
  have hperm := List.perm_insertIdx (newCell size cells bytes payload) cells hle
  have htotal : total ((cells.insertIdx (cells.findIdx fun c => decide (payload < c.val))
      (newCell size cells bytes payload)).map (·.bytes)) =
      bytes.length + total (cells.map (·.bytes)) :=
    (total_perm (hperm.map (·.bytes))).trans (total_cons _ _)
  refine ⟨d', _, hrun, ⟨hkeep.1.trans hp.length, ?_, ?_, ?_, fun c hc => ?_⟩, hperm⟩
  · have htype : At d 0 [PAGE_TYPE_LEAF_INDEX] := At.singleton.mpr hp.page.type
    exact At.singleton.mp (hkeep.2 0 _ (.inl (by simp [leafLayout])) htype)
  · rw [htotal, List.map_insertIdx, Nat.add_comm, ← Nat.sub_sub]
    exact hholds
  · have := hp.page.near
    omega
  · obtain rfl | hc := List.mem_cons.mp (hperm.mem_iff.mp hc)
    · exact hb
    · exact hp.page.cell c hc

theorem Packed.full (hp : Packed size d cells) (hroom : ¬ RoomFor size cells bytes.length) :
    tryInsertLeafCellIndex d 0 bytes payload = .ok none := by
  have hle := hp.room
  unfold RoomFor at hroom
  exact tryInsertCell_full hp.page.holds hp.page.near (hp.page.before payload)
    (by simp only [leafLayout, Layout.ptr]; omega)

/-- A payload that is not in the leaf. -/
theorem Packed.find (hp : Packed size d cells) (hnew : payload ∉ cells.map (·.val)) :
    findCellInPageIndex d 0 payload = .ok false := by
  have hf := findCell_spec hp.page.holds.toLists
    (f := fun _ ptr => do
      let existing ← readIndexPayload d ptr
      pure (if existing = payload then some () else none))
    (g := fun _ c => if decide (c.val = payload) = true then some () else none)
    (fun _ c hc => by
      change (readIndexPayload d c.ptr >>= _) = _
      rw [hp.page.readPayload hc]
      simp)
    cells.length 0 (Nat.zero_add _)
  have hnone : cells.findIdx? (fun c => decide (c.val = payload)) = none := by
    rw [List.findIdx?_eq_none_iff]
    intro c hc
    exact decide_eq_false fun heq => hnew (heq ▸ List.mem_map_of_mem hc)
  rw [List.drop_zero, firstSome_if (r := fun _ _ => ()), hnone] at hf
  rw [findCellInPageIndex, hp.page.count, Res.ok_bind]
  exact (congrArg (· >>= _) hf).trans rfl

end

/-! ## Splits -/

/-- The cells of a leaf by payload. -/
def sortPayloads (cells : List PayloadCell) : List PayloadCell :=
  cells.insertionSort fun a b => ¬ b.val < a.val

/-- The cells that stay in a leaf that is split. -/
def lowerHalf (cells : List PayloadCell) : List PayloadCell :=
  (sortPayloads cells).take (cells.length / 2)

theorem sortPayloads_perm (cells : List PayloadCell) : (sortPayloads cells).Perm cells :=
  List.perm_insertionSort _ _

theorem mem_lowerHalf {cells : List PayloadCell} {c : PayloadCell} (h : c ∈ lowerHalf cells) :
    c ∈ cells := (sortPayloads_perm cells).mem_iff.mp (List.mem_of_mem_take h)

theorem lowerHalf_length (cells : List PayloadCell) :
    (lowerHalf cells).length = cells.length / 2 := by
  rw [lowerHalf, List.length_take, (sortPayloads_perm cells).length_eq]
  omega

section
variable {size : Nat} {d : Bytes} {cells : List PayloadCell}

theorem Packed.cellsWith (hp : Packed size d cells) (c : PayloadCell) :
    leafIndexCellsWith d 0 c.bytes c.val =
      .ok ((sortPayloads (cells ++ [c])).map fun c => (c.val, c.bytes)) := by
  have hcells := collectCells_spec hp.page.holds.toLists (f := fun ptr => do
      let payload ← readIndexPayload d ptr
      let cell ← buildIndexCell payload
      pure (payload, cell)) (g := fun x => (x.val, x.bytes)) (fun x hx => by
        change (readIndexPayload d x.ptr >>= _) = _
        rw [hp.page.readPayload hx, Res.ok_bind, hp.page.cell x hx]
        rfl) cells.length 0 (Nat.zero_add _)
  rw [List.drop_zero] at hcells
  rw [leafIndexCellsWith, hp.page.count, Res.ok_bind, sortPayloads,
    List.map_insertionSort _ (fun a b : Bytes × Bytes => ¬ b.1 < a.1) _ _ fun _ _ _ _ => Iff.rfl,
    List.map_append]
  exact (congrArg (· >>= _) hcells).trans rfl

/-- A leaf laid out afresh. -/
theorem Packed.rebuild (hp : Packed size d cells) {cs : List PayloadCell}
    (hcell : ∀ c ∈ cs, buildIndexCell c.val = .ok c.bytes) (hmax : size < 65536)
    (hfit : total (cs.map (·.bytes)) + 2 * cs.length + 8 ≤ size) (h12 : 12 ≤ size) :
    ∃ d', rebuildLeafIndexPage d 0 (cs.map (·.bytes)) = .ok d' ∧ Packed size d' (placed size cs) := by
  have hlen := hp.length
  obtain ⟨d', hrun, hlen', hholds, -, hkeep⟩ := rebuildPage_spec (d := d) (leafLayout_header 0)
    (cs.map (·.bytes)) (by omega) (by omega) (by omega)
    (by rw [List.length_map]; simp only [leafLayout]; omega)
  have hbytes : (placed size cs).map (·.bytes) = cs.map (·.bytes) := placed_map size (fun _ _ => rfl) cs
  refine ⟨d', hrun, ⟨hlen'.trans hlen, ⟨(hkeep 0 (Nat.le_refl _)).trans hp.page.type, ?_, ?_,
    fun c hc => ?_⟩⟩⟩
  · rw [placed_slots, hbytes, ← hlen]
    exact hholds
  · omega
  · obtain ⟨c', hc', heq⟩ := mem_placed hc
    rw [heq]
    exact hcell c' hc'

/-- Where the cells are short, the lower half of a leaf with one too many fits: an upper half
of few bytes would be one of few cells, and so would be the lower half. -/
theorem lower_fits {n : Nat} (h8 : 8 ≤ size) (hn : (n + 1) * (n + 2) ≤ 6 * (size - 8))
    (hlen : ∀ c ∈ cells, 4 ≤ c.bytes.length ∧ c.bytes.length ≤ n)
    (htotal : total (cells.map (·.bytes)) + 2 * cells.length + 6 ≤ size + n) :
    total ((lowerHalf cells).map (·.bytes)) + 2 * (lowerHalf cells).length + 8 ≤ size := by
  have hsplit : total ((lowerHalf cells).map (·.bytes)) +
      total (((sortPayloads cells).drop (cells.length / 2)).map (·.bytes)) =
      total (cells.map (·.bytes)) := by
    rw [lowerHalf, ← total_append, ← List.map_append, List.take_append_drop]
    exact total_perm ((sortPayloads_perm cells).map _)
  have hlow : total ((lowerHalf cells).map (·.bytes)) ≤ n * (cells.length / 2) := by
    have hle : ∀ b ∈ (lowerHalf cells).map (·.bytes), b.length ≤ n := fun b hb => by
      obtain ⟨c, hc, rfl⟩ := List.mem_map.mp hb
      exact (hlen c (mem_lowerHalf hc)).2
    have := total_le_mul hle
    rwa [List.length_map, lowerHalf_length] at this
  have hhigh : 4 * (cells.length - cells.length / 2) ≤
      total (((sortPayloads cells).drop (cells.length / 2)).map (·.bytes)) := by
    have hge : ∀ b ∈ ((sortPayloads cells).drop (cells.length / 2)).map (·.bytes), 4 ≤ b.length :=
      fun b hb => by
        obtain ⟨c, hc, rfl⟩ := List.mem_map.mp hb
        exact (hlen c ((sortPayloads_perm cells).mem_iff.mp (List.mem_of_mem_drop hc))).1
    have := le_mul_total hge
    rwa [List.length_map, List.length_drop, (sortPayloads_perm cells).length_eq] at this
  rw [lowerHalf_length]
  by_contra hover
  have hfew : 6 * (cells.length / 2) ≤ n + 1 := by omega
  have hsize : size - 8 < (cells.length / 2) * (n + 2) := by
    rw [Nat.mul_add, Nat.mul_comm _ n]
    omega
  have hmul := Nat.mul_le_mul_right (n + 2) hfew
  rw [Nat.mul_assoc] at hmul
  omega

end

end Sqllite
