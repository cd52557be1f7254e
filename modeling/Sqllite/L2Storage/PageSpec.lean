import Sqllite.L2Storage.BtreePage

/-!
# What the page functions do to a slotted page

Each loop over the offset array gets a lemma in terms of the slots the page
holds, and each function that changes a page one that says which slots it holds
afterwards.

* `tryInsertCell_spec`: the cell goes in front of the first cell it precedes,
  or there is no room.
* `rebuildPage_spec`: exactly the given cells, packed at the end of the page.
-/
namespace Sqllite
open Lib.Run Lib.Span Lib.Slotted

/-! ## Reading

The cells are of any type, each with its slot. -/

/-- The first answer of `f` for the cells from entry `i` on. -/
def firstSome {κ α : Type} (f : Nat → κ → Option α) : Nat → List κ → Option α
  | _, [] => none
  | i, c :: cells => match f i c with
    | some a => some a
    | none => firstSome f (i + 1) cells

theorem firstSome_if {κ α : Type} {p : κ → Bool} {r : Nat → κ → α} : ∀ (i : Nat) (cells : List κ),
    firstSome (fun i c => if p c = true then some (r i c) else none) i cells =
      (cells.findIdx? p).bind fun j => (cells[j]?).map (r (i + j))
  | _, [] => rfl
  | i, c :: cells => by
    rw [firstSome, List.findIdx?_cons]
    cases p c with
    | true => simp
    | false =>
      simp only [Bool.false_eq_true, if_false]
      rw [firstSome_if (i + 1) cells, Option.bind_map]
      congr 1
      funext j
      simp only [Function.comp_apply, List.getElem?_cons_succ]
      congr 2; omega

theorem drop_getElem {α : Type} {l : List α} {i n : Nat} (h : i + (n + 1) = l.length) :
    ∃ a, l[i]? = some a ∧ l.drop i = a :: l.drop (i + 1) := by
  have hlt : i < l.length := by omega
  exact ⟨l[i], List.getElem?_eq_getElem hlt, List.drop_eq_getElem_cons hlt⟩

section
variable {κ : Type} {slot : κ → Slot} {L : Layout} {d : Bytes} {start : Nat} {cells : List κ}

theorem readCount (h : Lists L d (cells.map slot)) :
    readU16Be d L.count = .ok cells.length := by
  have := h.few
  rw [List.length_map] at this
  exact readU16Be_at (List.length_map slot ▸ h.count) this

theorem readContent (h : Holds L d start (cells.map slot)) (hlt : start < 65536) :
    readU16Be d L.content = .ok start := readU16Be_at h.content hlt

theorem readPtr (h : Lists L d (cells.map slot)) {i : Nat} {c : κ} (hi : cells[i]? = some c) :
    readU16Be d (L.ptr i) = .ok (slot c).1 := by
  have hs : (cells.map slot)[i]? = some ((slot c).1, (slot c).2) := by rw [List.getElem?_map, hi]; rfl
  exact readU16Be_at (h.ptr i _ _ hs) (h.ptr_lt hs)

theorem findSlot_spec (h : Lists L d (cells.map slot)) {before : Nat → Result Bool}
    {p : κ → Bool} (hb : ∀ c ∈ cells, before (slot c).1 = .ok (p c)) : ∀ n i, i + n = cells.length →
    findSlot L d before n i = .ok (i + (cells.drop i).findIdx p)
  | 0, i, hn => by
    rw [findSlot, List.drop_eq_nil_of_le (by omega), List.findIdx_nil]
    rfl
  | n + 1, i, hn => by
    obtain ⟨c, hc, hd⟩ := drop_getElem hn
    rw [findSlot, readPtr h hc, Res.ok_bind, hb c (List.mem_of_getElem? hc), Res.ok_bind, hd,
      List.findIdx_cons]
    cases p c with
    | true => simp
    | false =>
      simp only [Bool.false_eq_true, if_false, cond_false]
      rw [findSlot_spec h hb n (i + 1) (by omega)]
      congr 1; omega

theorem findCell_spec {α : Type} (h : Lists L d (cells.map slot))
    {f : Nat → Nat → Result (Option α)} {g : Nat → κ → Option α}
    (hf : ∀ i, ∀ c ∈ cells, f i (slot c).1 = .ok (g i c)) :
    ∀ n i, i + n = cells.length → findCell L d f n i = .ok (firstSome g i (cells.drop i))
  | 0, i, hn => by
    rw [findCell, List.drop_eq_nil_of_le (by omega)]
    rfl
  | n + 1, i, hn => by
    obtain ⟨c, hc, hd⟩ := drop_getElem hn
    rw [findCell, readPtr h hc, Res.ok_bind, hf i c (List.mem_of_getElem? hc), Res.ok_bind, hd,
      firstSome]
    cases g i c with
    | some a => rfl
    | none => exact findCell_spec h hf n (i + 1) (by omega)

theorem collectCells_spec {α : Type} (h : Lists L d (cells.map slot)) {f : Nat → Result α}
    {g : κ → α} (hf : ∀ c ∈ cells, f (slot c).1 = .ok (g c)) :
    ∀ n i, i + n = cells.length → collectCells L d f n i = .ok ((cells.drop i).map g)
  | 0, i, hn => by
    rw [collectCells, List.drop_eq_nil_of_le (by omega)]
    rfl
  | n + 1, i, hn => by
    obtain ⟨c, hc, hd⟩ := drop_getElem hn
    rw [collectCells, readPtr h hc, Res.ok_bind, hf c (List.mem_of_getElem? hc), Res.ok_bind,
      collectCells_spec h hf n (i + 1) (by omega), hd]
    rfl

end

/-! ## Moving offsets -/

theorem ptr_succ (L : Layout) (i : Nat) : L.ptr (i + 1) = L.ptr i + 2 := by
  unfold Layout.ptr; omega

theorem writeU16Be_outside (d : Bytes) (off v : Nat) (h : off + 2 ≤ d.length) :
    ∃ d', writeU16Be d off v = .ok d' ∧ At d' off (be16 v) ∧ Outside d d' off (off + 2) :=
  ⟨_, writeU16Be_ok h, At.patch_self h, Outside.patch h⟩

/-- The offsets of `idx .. idx + k` move one place up. -/
theorem shiftUp_spec (L : Layout) (idx : Nat) (v : Nat → Nat) : ∀ (k : Nat) (d : Bytes),
    (∀ j < k, At d (L.ptr (idx + j)) (be16 (v j)) ∧ v j < 65536) →
    L.ptr (idx + k) + 2 ≤ d.length →
    ∃ d', shiftUp L idx k d = .ok d' ∧ (∀ j < k, At d' (L.ptr (idx + j + 1)) (be16 (v j))) ∧
      Outside d d' (L.ptr (idx + 1)) (L.ptr (idx + k) + 2)
  | 0, d, _, _ => ⟨d, rfl, fun _ hj => absurd hj (Nat.not_lt_zero _), Outside.refl _ _ _⟩
  | k + 1, d, hv, hle => by
    obtain ⟨hat, hlt⟩ := hv k (Nat.lt_succ_self k)
    obtain ⟨d1, hw, hat1, hout1⟩ := writeU16Be_outside d _ (v k) hle
    have hk : L.ptr (idx + (k + 1)) = L.ptr (idx + k) + 2 := ptr_succ L (idx + k)
    have hbelow : ∀ j < k, L.ptr (idx + j) + 2 ≤ L.ptr (idx + k) := fun j hj => by
      unfold Layout.ptr; omega
    obtain ⟨d2, hs, hat2, hout2⟩ := shiftUp_spec L idx v k d1
      (fun j hj => ⟨(hout1.at_iff (.inl (by rw [be16_length]; have := hbelow j hj; omega))).mpr
        (hv j (by omega)).1, (hv j (by omega)).2⟩) (by rw [hout1.1]; omega)
    refine ⟨d2, ?_, fun j hj => ?_, ?_⟩
    · rw [shiftUp, readU16Be_at hat hlt, Res.ok_bind]
      change (writeU16Be d (L.ptr (idx + (k + 1))) (v k) >>= _) = _
      rw [hw]
      exact hs
    · rcases Nat.lt_or_eq_of_le (Nat.le_of_lt_succ hj) with hlt' | rfl
      · exact hat2 j hlt'
      · exact (hout2.at_iff (.inr (by unfold Layout.ptr; omega))).mpr hat1
    · exact (hout1.mono (by unfold Layout.ptr; omega) (Nat.le_refl _)).trans
        (hout2.mono (Nat.le_refl _) (by omega))

/-- The offsets behind entry `i` move one place down. -/
theorem shiftDown_spec {L : Layout} {v : Nat → Nat} : ∀ (k i : Nat) (d : Bytes),
    (∀ j, i < j → j ≤ i + k → At d (L.ptr j) (be16 (v j)) ∧ v j < 65536) →
    L.ptr (i + k) ≤ d.length →
    ∃ d', shiftDown L k i d = .ok d' ∧
      (∀ j, i ≤ j → j < i + k → At d' (L.ptr j) (be16 (v (j + 1)))) ∧
      Outside d d' (L.ptr i) (L.ptr (i + k))
  | 0, i, d, _, _ => ⟨d, rfl, fun _ _ _ => by omega, Outside.refl _ _ _⟩
  | k + 1, i, d, hv, hle => by
    obtain ⟨hat, hlt⟩ := hv (i + 1) (by omega) (by omega)
    obtain ⟨d1, hw, hat1, hout1⟩ := writeU16Be_outside d (L.ptr i) (v (i + 1))
      (by unfold Layout.ptr at *; omega)
    have hik : i + 1 + k = i + (k + 1) := by omega
    obtain ⟨d2, hs, hat2, hout2⟩ := shiftDown_spec (L := L) (v := v) k (i + 1) d1
      (fun j hj hjk => ⟨(hout1.at_iff (.inr (by unfold Layout.ptr; omega))).mpr
        (hv j (by omega) (by omega)).1, (hv j (by omega) (by omega)).2⟩)
      (by rw [hout1.1, hik]; exact hle)
    rw [hik] at hat2 hout2
    refine ⟨d2, ?_, fun j hij hjk => ?_, ?_⟩
    · rw [shiftDown, readU16Be_at hat hlt, Res.ok_bind, hw]
      exact hs
    · rcases Nat.lt_or_eq_of_le hij with hlt' | rfl
      · exact hat2 j hlt' (by omega)
      · exact (hout2.at_iff (.inl (by rw [be16_length, ptr_succ]))).mpr hat1
    · exact (hout1.mono (Nat.le_refl _) (by unfold Layout.ptr; omega)).trans
        (hout2.mono (by unfold Layout.ptr; omega) (Nat.le_refl _))

/-! ## Insertion -/

section
variable {κ : Type} {slot : κ → Slot} {L : Layout} {d : Bytes} {start : Nat} {cells : List κ}
  {before : Nat → Result Bool} {p : κ → Bool} {cell : Bytes}

theorem tryInsertCell_full (h : Holds L d start (cells.map slot)) (hlt : start < 65536)
    (hb : ∀ c ∈ cells, before (slot c).1 = .ok (p c))
    (hfull : start - cell.length < L.ptr (cells.length + 1) + 1) :
    tryInsertCell L before d cell = .ok none := by
  rw [tryInsertCell, readCount h.toLists, Res.ok_bind, findSlot_spec h.toLists hb _ 0 (Nat.zero_add _),
    Res.ok_bind, readContent h hlt, Res.ok_bind, if_pos hfull]
  rfl

theorem tryInsertCell_spec (h : Holds L d start (cells.map slot)) (hlt : start < 65536)
    (hb : ∀ c ∈ cells, before (slot c).1 = .ok (p c))
    (hroom : L.ptr (cells.length + 1) + 1 ≤ start - cell.length) :
    ∃ d', tryInsertCell L before d cell = .ok (some d') ∧
      Holds L d' (start - cell.length)
        ((cells.map slot).insertIdx (cells.findIdx p) (start - cell.length, cell)) ∧
      L.Keeps d d' := by
  have hcount := readCount h.toLists
  have hslot := findSlot_spec h.toLists hb cells.length 0 (Nat.zero_add _)
  rw [List.drop_zero, Nat.zero_add] at hslot
  have hcontent := readContent h hlt
  have hidx : cells.findIdx p ≤ (cells.map slot).length := by
    rw [List.length_map]; exact List.findIdx_le_length
  have hlen : cells.length = (cells.map slot).length := (List.length_map slot).symm
  generalize cells.findIdx p = idx at hslot hidx ⊢
  rw [hlen] at hcount hslot hroom
  generalize cells.map slot = slots at h hcount hslot hidx hroom ⊢
  generalize hs' : start - cell.length = start'
  rw [hs'] at hroom
  have htop := h.top
  have hcc := L.count_content
  have hcp := L.content_ptrs
  have hptr : ∀ i, L.ptr i = L.ptrs + i * 2 := fun _ => rfl
  rw [hptr] at hroom
  have hstart : start' + cell.length = start := by omega
  -- the cell below the others
  have hout1 : Outside d (patch d start' cell) start' (start' + cell.length) :=
    Outside.patch (by omega)
  have hat1 : At (patch d start' cell) start' cell := At.patch_self (by omega)
  generalize hd1 : patch d start' cell = d1 at hout1 hat1
  have hptr1 : ∀ j q b, slots[j]? = some (q, b) → At d1 (L.ptr j) (be16 q) := fun j q b hj => by
    have hlt := (List.getElem?_eq_some_iff.mp hj).1
    exact (hout1.at_iff (.inl (by rw [be16_length, hptr]; omega))).mpr (h.ptr j q b hj)
  -- the offsets behind it move up
  obtain ⟨d2, hs2, hat2, hout2⟩ := shiftUp_spec L idx
    (fun j => ((slots[idx + j]?).map (·.1)).getD 0) (slots.length - idx) d1
    (fun j hj => by
      obtain ⟨s, hs⟩ : ∃ s, slots[idx + j]? = some s := ⟨_, List.getElem?_eq_getElem (by omega)⟩
      simp only [hs, Option.map_some, Option.getD_some]
      exact ⟨hptr1 _ s.1 s.2 hs, h.ptr_lt hs⟩)
    (by rw [hout1.1, hptr]; omega)
  rw [show idx + (slots.length - idx) = slots.length by omega] at hout2
  -- the new offset, the content offset and the count
  obtain ⟨d3, hs3, hat3, hout3⟩ := writeU16Be_outside d2 (L.ptr idx) start'
    (by rw [hout2.1, hout1.1, hptr]; omega)
  obtain ⟨d4, hs4, hat4, hout4⟩ := writeU16Be_outside d3 L.content start'
    (by rw [hout3.1, hout2.1, hout1.1]; omega)
  obtain ⟨d5, hs5, hat5, hout5⟩ := writeU16Be_outside d4 L.count
    (slots.length + 1) (by rw [hout4.1, hout3.1, hout2.1, hout1.1]; omega)
  have hlen : d5.length = d.length := by rw [hout5.1, hout4.1, hout3.1, hout2.1, hout1.1]
  have harray : ∀ o bs, L.ptrs ≤ o → At d3 o bs → At d5 o bs := fun o bs ho hat =>
    (hout5.at_iff (.inr (by omega))).mpr ((hout4.at_iff (.inr (by omega))).mpr hat)
  have hcells : ∀ o bs, start' ≤ o → At d1 o bs → At d5 o bs := fun o bs ho hat =>
    harray o bs (by omega) ((hout3.at_iff (.inr (by rw [hptr]; omega))).mpr
      ((hout2.at_iff (.inr (by rw [hptr]; omega))).mpr hat))
  refine ⟨d5, ?_, ?_, ?_⟩
  · rw [tryInsertCell, hcount, Res.ok_bind, hslot, Res.ok_bind, hcontent, Res.ok_bind, hs',
      if_neg (by rw [hptr]; omega), copyInto_ok (by omega), Res.ok_bind, hd1, hs2, Res.ok_bind, hs3,
      Res.ok_bind, hs4, Res.ok_bind, hs5]
    rfl
  · refine h.insert hidx hstart (by omega) (by omega) hlen hat5
      ((hout5.at_iff (.inr (by omega))).mpr hat4) (fun j q b hj => ?_)
      (hcells _ _ (Nat.le_refl _) hat1)
      (fun o bs ho hat => hcells o bs (by omega) ((hout1.at_iff (.inr (by omega))).mpr hat))
    refine harray _ _ (by rw [hptr]; omega) ?_
    rcases Nat.lt_trichotomy j idx with hlt | rfl | hgt
    · rw [List.getElem?_insertIdx_of_lt hlt] at hj
      refine (hout3.at_iff (.inl (by rw [be16_length, hptr, hptr]; omega))).mpr
        ((hout2.at_iff (.inl (by rw [be16_length, hptr, hptr]; omega))).mpr (hptr1 j q b hj))
    · rw [List.getElem?_insertIdx_self, if_pos hidx] at hj
      cases hj
      exact hat3
    · rw [List.getElem?_insertIdx_of_gt hgt] at hj
      have hjl := (List.getElem?_eq_some_iff.mp hj).1
      have hat := hat2 (j - 1 - idx) (by omega)
      rw [show idx + (j - 1 - idx) = j - 1 by omega, show j - 1 + 1 = j by omega, hj] at hat
      exact (hout3.at_iff (.inr (by rw [hptr, hptr]; omega))).mpr hat
  · exact (Layout.keeps_of_outside hout1 (.inl (by omega))).trans
      ((Layout.keeps_of_outside hout2 (.inl (by rw [hptr]; omega))).trans
      ((Layout.keeps_of_outside hout3 (.inl (by rw [hptr]; omega))).trans
      ((Layout.keeps_of_outside hout4 (.inr ⟨by omega, Nat.le_refl _⟩)).trans
      (Layout.keeps_of_outside hout5 (.inr ⟨Nat.le_refl _, by omega⟩)))))

end

/-! ## A page laid out afresh -/

theorem copyInto_outside (d : Bytes) (off : Nat) (bs : Bytes) (h : off + bs.length ≤ d.length) :
    ∃ d', copyInto d off bs = .ok d' ∧ At d' off bs ∧ Outside d d' off (off + bs.length) :=
  ⟨_, copyInto_ok h, At.patch_self h, Outside.patch h⟩

theorem placeCells_spec : ∀ (cells : List Bytes) (d : Bytes), total cells ≤ d.length →
    ∃ d', placeCells d cells =
        .ok (d', d.length - total cells, (freshSlots d.length cells).map (·.1)) ∧
      (∀ s ∈ freshSlots d.length cells, At d' s.1 s.2) ∧
      Outside d d' (d.length - total cells) d.length
  | [], d, _ => ⟨d, rfl, fun _ hs => (by cases hs), Outside.refl _ _ _⟩
  | c :: cs, d, h => by
    rw [total_cons] at h ⊢
    obtain ⟨d1, h1, hat1, hout1⟩ := placeCells_spec cs d (by omega)
    obtain ⟨d2, h2, hat2, hout2⟩ := copyInto_outside d1
      (d.length - (c.length + total cs)) c (by rw [hout1.1]; omega)
    refine ⟨d2, ?_, fun s hs => ?_, ?_⟩
    · rw [placeCells, h1, Res.ok_bind]
      simp only
      rw [if_neg (by omega), show d.length - total cs - c.length = d.length - (c.length + total cs)
        by omega, h2]
      rfl
    · rcases List.mem_cons.mp hs with rfl | hs
      · simpa using hat2
      · have hb := freshSlots_bounds d.length cs (by omega) s hs
        exact (hout2.at_iff (.inr (by omega))).mpr (hat1 s hs)
    · exact (hout1.mono (by omega) (Nat.le_refl _)).trans (hout2.mono (Nat.le_refl _) (by omega))

theorem writePtrs_spec {L : Layout} : ∀ (ptrs : List Nat) (i : Nat) (d : Bytes),
    L.ptr (i + ptrs.length) ≤ d.length →
    ∃ d', writePtrs L ptrs i d = .ok d' ∧
      (∀ j p, ptrs[j]? = some p → At d' (L.ptr (i + j)) (be16 p)) ∧
      Outside d d' (L.ptr i) (L.ptr (i + ptrs.length))
  | [], i, d, _ => ⟨d, rfl, fun j p hj => (by cases hj), Outside.refl _ _ _⟩
  | q :: ptrs, i, d, h => by
    rw [List.length_cons] at h ⊢
    have hptr : ∀ i, L.ptr i = L.ptrs + i * 2 := fun _ => rfl
    obtain ⟨d1, h1, hat1, hout1⟩ := writeU16Be_outside d (L.ptr i) q
      (by rw [hptr] at h ⊢; omega)
    have hi : i + 1 + ptrs.length = i + (ptrs.length + 1) := by omega
    obtain ⟨d2, h2, hat2, hout2⟩ := writePtrs_spec ptrs (i + 1) d1 (by rw [hi, hout1.1]; exact h)
    rw [hi] at hout2
    refine ⟨d2, ?_, fun j p hj => ?_, ?_⟩
    · rw [writePtrs, h1]
      exact h2
    · cases j with
      | zero => cases hj; exact (hout2.at_iff (.inl (by rw [be16_length, hptr, hptr]; omega))).mpr hat1
      | succ j =>
        have := hat2 j p hj
        rwa [show i + 1 + j = i + (j + 1) by omega] at this
    · exact (hout1.mono (Nat.le_refl _) (by rw [hptr, hptr]; omega)).trans
        (hout2.mono (by rw [hptr, hptr]; omega) (Nat.le_refl _))

theorem writeRightmost_spec {h : Nat} (right : Option Nat) {d : Bytes} (hle : h + 12 ≤ d.length) :
    ∃ d', writeRightmost h right d = .ok d' ∧ (∀ r, right = some r → At d' (h + 8) (be32 r)) ∧
      Outside d d' (h + 8) (h + 12) := by
  cases right with
  | none => exact ⟨d, rfl, fun _ hr => (by cases hr), Outside.refl _ _ _⟩
  | some r =>
    obtain ⟨d', h1, h2, h3⟩ := copyInto_outside d (h + 8) (be32 r) (by simpa using hle)
    exact ⟨d', h1, fun _ hr => by cases hr; exact h2, h3⟩

/-- The offset array stands behind the rightmost child, where there is one. -/
structure HeaderAt (L : Layout) (h : Nat) (right : Option Nat) : Prop where
  count : L.count = h + 3
  content : L.content = h + 5
  leaf : h + 8 ≤ L.ptrs
  interior : ∀ r, right = some r → h + 12 ≤ L.ptrs

theorem leafLayout_header (h : Nat) : HeaderAt (leafLayout h) h none :=
  ⟨rfl, rfl, Nat.le_refl _, fun _ hr => by cases hr⟩

theorem interiorLayout_header (h right : Nat) : HeaderAt (interiorLayout h) h (some right) :=
  ⟨rfl, rfl, by simp [interiorLayout], fun _ _ => Nat.le_refl _⟩

theorem rebuildPage_spec {L : Layout} {h : Nat} {right : Option Nat} (hL : HeaderAt L h right)
    {d : Bytes} (cells : List Bytes) (h12 : h + 12 ≤ d.length) (hsmall : d.length < 65536)
    (htotal : total cells ≤ d.length)
    (hroom : L.ptrs + cells.length * 2 ≤ d.length - total cells) :
    ∃ d', rebuildPage L h right d cells = .ok d' ∧ d'.length = d.length ∧
      Holds L d' (d.length - total cells) (freshSlots d.length cells) ∧
      (∀ r, right = some r → At d' (h + 8) (be32 r)) ∧ ∀ i ≤ h, d'[i]? = d[i]? := by
  have hc := hL.count
  have hs := hL.content
  have hp := hL.leaf
  have hptr : ∀ i, L.ptr i = L.ptrs + i * 2 := fun _ => rfl
  obtain ⟨d1, e1, -, o1⟩ := copyInto_outside d (h + 1) [0]
    (by simp only [List.length_singleton]; omega)
  obtain ⟨d2, e2, -, o2⟩ := copyInto_outside d1 (h + 2) [0]
    (by simp only [List.length_singleton]; rw [o1.1]; omega)
  obtain ⟨d3, e3, a3, o3⟩ := writeU16Be_outside d2 (h + 3) cells.length
    (by rw [o2.1, o1.1]; omega)
  obtain ⟨d4, e4, -, o4⟩ := copyInto_outside d3 (h + 7) [0]
    (by simp only [List.length_singleton]; rw [o3.1, o2.1, o1.1]; omega)
  have l4 : d4.length = d.length := by rw [o4.1, o3.1, o2.1, o1.1]
  obtain ⟨d5, e5, a5, o5⟩ := writeRightmost_spec right
    (by rw [l4]; exact h12)
  have l5 : d5.length = d.length := o5.1.trans l4
  obtain ⟨d6, e6, a6, o6⟩ := placeCells_spec cells d5 (by rw [l5]; exact htotal)
  rw [l5] at e6 a6 o6
  have l6 : d6.length = d.length := o6.1.trans l5
  obtain ⟨d7, e7, a7, o7⟩ := writeU16Be_outside d6 (h + 5)
    (d.length - total cells) (by rw [l6]; omega)
  have l7 : d7.length = d.length := o7.1.trans l6
  obtain ⟨d8, e8, a8, o8⟩ := writePtrs_spec (L := L)
    ((freshSlots d.length cells).map (·.1)) 0 d7
    (by simp only [List.length_map, freshSlots_length]; rw [l7, hptr]; omega)
  simp only [Nat.zero_add, List.length_map, freshSlots_length] at a8 o8
  rw [hptr, hptr] at o8
  have l8 : d8.length = d.length := o8.1.trans l7
  simp only [List.length_singleton] at o1 o2 o4
  refine ⟨d8, ?_, l8, ?_, fun r hr => ?_, fun i hi => ?_⟩
  · rw [rebuildPage, e1, Res.ok_bind, e2, Res.ok_bind, e3, Res.ok_bind, e4, Res.ok_bind, e5,
      Res.ok_bind, e6, Res.ok_bind]
    simp only
    rw [e7, Res.ok_bind, e8]
  · have hfresh := Holds.fresh L d8 cells (by rw [l8]; exact htotal)
      (by rw [l8]; exact hroom) (by rw [l8]; exact hsmall) (by
        rw [hc]
        refine (o8.at_iff (.inl (by rw [be16_length]; omega))).mpr
          ((o7.at_iff (.inl (by rw [be16_length]))).mpr
          ((o6.at_iff (.inl (by rw [be16_length]; omega))).mpr
          ((o5.at_iff (.inl (by rw [be16_length]; omega))).mpr
          ((o4.at_iff (.inl (by rw [be16_length]; omega))).mpr a3)))))
      (by rw [hs, l8]; exact (o8.at_iff (.inl (by rw [be16_length]; omega))).mpr a7)
      (fun i q c hi => by
        rw [l8] at hi
        exact a8 i q (by rw [List.getElem?_map, hi]; rfl))
      (fun s hs' => by
        rw [l8] at hs'
        have hb := freshSlots_bounds _ _ htotal s hs'
        exact (o8.at_iff (.inr (by omega))).mpr ((o7.at_iff (.inr (by omega))).mpr (a6 s hs')))
    rwa [l8] at hfresh
  · have hint := hL.interior r hr
    exact (o8.at_iff (.inl (by rw [be32_length]; omega))).mpr
      ((o7.at_iff (.inr (by omega))).mpr ((o6.at_iff (.inl (by rw [be32_length]; omega))).mpr (a5 r hr)))
  · rw [o8.2 i (by omega), o7.2 i (by omega), o6.2 i (by omega), o5.2 i (by omega),
      o4.2 i (by omega), o3.2 i (by omega), o2.2 i (by omega), o1.2 i (by omega)]

/-! ### Cells that need not fit

The layout does not look whether the cells leave room for the offset array. -/

theorem copyInto_eq_ok {d d' : Bytes} {off : Nat} {bs : Bytes} (h : copyInto d off bs = .ok d') :
    At d' off bs ∧ Outside d d' off (off + bs.length) := by
  rw [copyInto] at h
  split at h
  · next hle =>
    cases h
    exact ⟨At.patch_self hle, Outside.patch hle⟩
  · cases h

theorem placeCells_eq_ok : ∀ {cells : List Bytes} {d d' : Bytes} {start : Nat} {ptrs : List Nat},
    placeCells d cells = .ok (d', start, ptrs) → total cells ≤ d.length
  | [], _, _, _, _, _ => Nat.zero_le _
  | c :: cs, d, d', start, ptrs, h => by
    rw [total_cons]
    obtain ⟨⟨d1, start1, ptrs1⟩, h1, h⟩ := Res.bind_eq_ok.mp h
    have hle := placeCells_eq_ok h1
    obtain ⟨d2, h2, -⟩ := placeCells_spec cs d hle
    have hstart : start1 = d.length - total cs := by
      rw [h2] at h1
      cases h1
      rfl
    simp only at h
    split at h
    · cases h
    · omega

theorem writePtrs_eq_ok {L : Layout} : ∀ {ptrs : List Nat} {i : Nat} {d d' : Bytes},
    writePtrs L ptrs i d = .ok d' → Outside d d' (L.ptr i) (L.ptr (i + ptrs.length))
  | [], i, d, d', h => by
    cases h
    exact Outside.refl _ _ _
  | p :: ptrs, i, d, d', h => by
    obtain ⟨d1, h1, h⟩ := Res.bind_eq_ok.mp h
    obtain ⟨-, hout⟩ := copyInto_eq_ok h1
    have hrest := writePtrs_eq_ok h
    have hptr : ∀ i, L.ptr i = L.ptrs + i * 2 := fun _ => rfl
    rw [be16_length] at hout
    rw [List.length_cons]
    exact (hout.mono (Nat.le_refl _) (by rw [hptr, hptr]; omega)).trans
      (hrest.mono (by rw [hptr, hptr]; omega) (by rw [hptr, hptr]; omega))

/-- The header of a page that was laid out: the content offset is that of the
lowest cell, the rest is there as far as the cells leave it. -/
theorem rebuildPage_header {L : Layout} {h : Nat} {right : Option Nat} (hL : HeaderAt L h right)
    {d d' : Bytes} {cells : List Bytes} (hr : rebuildPage L h right d cells = .ok d') :
    d'.length = d.length ∧ total cells ≤ d.length ∧
      At d' L.content (be16 (d.length - total cells)) ∧
      (h + 5 ≤ d.length - total cells → At d' L.count (be16 cells.length)) ∧
      (h + 12 ≤ d.length - total cells → ∀ r, right = some r → At d' (h + 8) (be32 r)) := by
  have hc := hL.count
  have hs := hL.content
  have hp := hL.leaf
  have hptr : L.ptr 0 = L.ptrs := by rw [Layout.ptr, Nat.zero_mul, Nat.add_zero]
  obtain ⟨d1, h1, hr⟩ := Res.bind_eq_ok.mp hr
  obtain ⟨d2, h2, hr⟩ := Res.bind_eq_ok.mp hr
  obtain ⟨d3, h3, hr⟩ := Res.bind_eq_ok.mp hr
  obtain ⟨d4, h4, hr⟩ := Res.bind_eq_ok.mp hr
  obtain ⟨d5, h5, hr⟩ := Res.bind_eq_ok.mp hr
  obtain ⟨⟨d6, start, ptrs⟩, h6, hr⟩ := Res.bind_eq_ok.mp hr
  have htotal := placeCells_eq_ok h6
  obtain ⟨d6', h6', -, o6⟩ := placeCells_spec cells d5 htotal
  obtain ⟨rfl, rfl, rfl⟩ : d6 = d6' ∧ start = d5.length - total cells ∧
      ptrs = (freshSlots d5.length cells).map (·.1) := by
    rw [h6] at h6'
    cases h6'
    exact ⟨rfl, rfl, rfl⟩
  obtain ⟨d7, h7, h8⟩ := Res.bind_eq_ok.mp hr
  obtain ⟨-, o1⟩ := copyInto_eq_ok h1
  obtain ⟨-, o2⟩ := copyInto_eq_ok h2
  obtain ⟨a3, o3⟩ := copyInto_eq_ok h3
  obtain ⟨-, o4⟩ := copyInto_eq_ok h4
  have hright : (∀ r, right = some r → At d5 (h + 8) (be32 r)) ∧ Outside d4 d5 (h + 8) (h + 12) := by
    cases right with
    | none =>
      cases h5
      exact ⟨fun _ hr => (by cases hr), Outside.refl _ _ _⟩
    | some r =>
      obtain ⟨a5, o5⟩ := copyInto_eq_ok h5
      exact ⟨fun _ hr => by cases hr; exact a5, o5⟩
  have hlen : d5.length = d.length := by rw [hright.2.1, o4.1, o3.1, o2.1, o1.1]
  rw [hlen] at htotal o6 h7
  obtain ⟨a7, o7⟩ := copyInto_eq_ok h7
  have o8 := writePtrs_eq_ok h8
  rw [hptr] at o8
  rw [be16_length] at o3 o7
  rw [List.length_singleton] at o4
  refine ⟨by rw [o8.1, o7.1, o6.1, hlen], htotal, ?_, fun hroom => ?_, fun hroom r hr' => ?_⟩
  · rw [hs]
    exact (o8.at_iff (.inl (by rw [be16_length]; omega))).mpr a7
  · rw [hc]
    refine (o8.at_iff (.inl (by rw [be16_length]; omega))).mpr
      ((o7.at_iff (.inl (by rw [be16_length]))).mpr
      ((o6.at_iff (.inl (by rw [be16_length]; omega))).mpr
      ((hright.2.at_iff (.inl (by rw [be16_length]; omega))).mpr
      ((o4.at_iff (.inl (by rw [be16_length]; omega))).mpr a3))))
  · have hint := hL.interior r hr'
    exact (o8.at_iff (.inl (by rw [be32_length]; omega))).mpr
      ((o7.at_iff (.inr (by omega))).mpr
      ((o6.at_iff (.inl (by rw [be32_length]; omega))).mpr (hright.1 r hr')))

/-- A page that was laid out and keeps its cells apart from its offset array has
as many as were laid out, and they fit. -/
theorem rebuildPage_fits {L : Layout} {h start : Nat} {right : Option Nat} (hL : HeaderAt L h right)
    {d d' : Bytes} {cells : List Bytes} {slots : List Slot}
    (hr : rebuildPage L h right d cells = .ok d') (hd : d.length < 65536)
    (hn : cells.length < 65536) (hd' : Holds L d' start slots) :
    total cells ≤ d.length ∧ start = d.length - total cells ∧ slots.length = cells.length ∧
      L.ptrs + cells.length * 2 ≤ d.length - total cells := by
  obtain ⟨hlen, htotal, hcontent, hcount, -⟩ := rebuildPage_header hL hr
  have htop := hd'.top
  have hroom := hd'.room
  have hfew := hd'.few
  have hp := hL.leaf
  have hstart : start % 65536 = (d.length - total cells) % 65536 := by
    rw [← ofBE_be16, ← ofBE_be16, hd'.content.eq_of_length hcontent rfl]
  have hstart : start = d.length - total cells := by omega
  have hnum : slots.length % 65536 = cells.length % 65536 := by
    rw [← ofBE_be16, ← ofBE_be16, hd'.count.eq_of_length (hcount (by omega)) rfl]
  exact ⟨htotal, hstart, by omega, by omega⟩

/-- On a page of up to 65536 bytes: as many cells as were laid out, or none on a page
that they fill from its first byte on. -/
theorem rebuildPage_count {L : Layout} {h start : Nat} {right : Option Nat} (hL : HeaderAt L h right)
    {d d' : Bytes} {cells : List Bytes} {slots : List Slot}
    (hr : rebuildPage L h right d cells = .ok d') (hn : cells.length < 65536)
    (hd' : Holds L d' start slots) :
    slots.length = cells.length ∨ slots = [] ∧ total cells = 65536 := by
  obtain ⟨hlen, htotal, hcontent, hcount, -⟩ := rebuildPage_header hL hr
  have htop := hd'.top
  have hroom := hd'.room
  have hfew := hd'.few
  have hsmall := hd'.small
  have hp := hL.leaf
  have hstart : start % 65536 = (d.length - total cells) % 65536 := by
    rw [← ofBE_be16, ← ofBE_be16, hd'.content.eq_of_length hcontent rfl]
  by_cases heq : start = d.length - total cells
  · have hnum : slots.length % 65536 = cells.length % 65536 := by
      rw [← ofBE_be16, ← ofBE_be16, hd'.count.eq_of_length (hcount (by omega)) rfl]
    exact .inl (by omega)
  · refine .inr ⟨List.eq_nil_iff_forall_not_mem.mpr fun s hs => ?_, by omega⟩
    have := hd'.low s hs
    have := hd'.near s hs
    omega

end Sqllite
