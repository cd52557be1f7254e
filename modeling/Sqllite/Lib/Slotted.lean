import Sqllite.Lib.Bytes
import Mathlib.Data.List.InsertIdx

/-!
# Slotted pages

A page of variable-length cells: a `u16` cell count, a `u16` offset of the
lowest cell, an array of `u16` cell offsets that grows upwards and cells that
grow downwards from the end of the page. A slot is a cell with its offset;
`Lists L d slots` says that a reader of page `d` finds them in this order,
`Holds L d start slots` that there is room below `start` for more.

The rules say what a page holds after a write, from what the write leaves where:
`Holds.insert`, `Holds.erase`, `Holds.set` and, for a page laid out afresh,
`Holds.fresh`.
-/
namespace Lib.Slotted
open Lib.Span

/-- Where a page keeps its count, its content offset and its offset array. -/
structure Layout where
  count : Nat
  content : Nat
  ptrs : Nat
  count_content : count + 2 ≤ content
  content_ptrs : content + 2 ≤ ptrs

/-- Place of entry `i` of the offset array. -/
def Layout.ptr (L : Layout) (i : Nat) : Nat := L.ptrs + i * 2

/-- `d'` is `d` in front of the count and between the content offset and the
offset array. -/
def Layout.Keeps (L : Layout) (d d' : Bytes) : Prop :=
  d'.length = d.length ∧ ∀ o bs, o + bs.length ≤ L.count ∨
    L.content + 2 ≤ o ∧ o + bs.length ≤ L.ptrs → At d o bs → At d' o bs

theorem Layout.Keeps.trans {L : Layout} {d d' d'' : Bytes} (h : L.Keeps d d')
    (g : L.Keeps d' d'') : L.Keeps d d'' :=
  ⟨g.1.trans h.1, fun o bs ho hat => g.2 o bs ho (h.2 o bs ho hat)⟩

theorem Layout.keeps_of_outside {L : Layout} {d d' : Bytes} {lo hi : Nat} (h : Outside d d' lo hi)
    (hlo : L.ptrs ≤ lo ∨ L.count ≤ lo ∧ hi ≤ L.content + 2) : L.Keeps d d' := by
  have h1 := L.count_content
  have h2 := L.content_ptrs
  exact ⟨h.1, fun o bs ho hat => (h.at_iff (by omega)).mpr hat⟩

/-- A cell and its offset. -/
abbrev Slot := Nat × Bytes

/-- The ranges of two cells do not meet. -/
def Apart (a b : Slot) : Prop := a.1 + a.2.length ≤ b.1 ∨ b.1 + b.2.length ≤ a.1

theorem Apart.symm {a b : Slot} (h : Apart a b) : Apart b a := Or.symm h

/-- What a reader of the page finds. -/
structure Lists (L : Layout) (d : Bytes) (slots : List Slot) : Prop where
  count : At d L.count (be16 slots.length)
  ptr : ∀ i p c, slots[i]? = some (p, c) → At d (L.ptr i) (be16 p)
  cell : ∀ s ∈ slots, At d s.1 s.2
  high : ∀ s ∈ slots, s.1 + s.2.length ≤ d.length
  near : ∀ s ∈ slots, s.1 < 65536
  few : slots.length < 65536
  small : d.length ≤ 65536

/-- What a writer needs besides: the cells stand apart, above the content offset
and behind the offset array. -/
structure Holds (L : Layout) (d : Bytes) (start : Nat) (slots : List Slot) : Prop
    extends Lists L d slots where
  content : At d L.content (be16 start)
  low : ∀ s ∈ slots, start ≤ s.1
  apart : slots.Pairwise Apart
  room : L.ptrs + slots.length * 2 ≤ start
  top : start ≤ d.length

section
variable {L : Layout} {d d' : Bytes} {start start' : Nat} {slots : List Slot}

theorem Lists.ptr_lt (h : Lists L d slots) {i p : Nat} {c : Bytes}
    (hi : slots[i]? = some (p, c)) : p < 65536 := h.near _ (List.mem_of_getElem? hi)

theorem Holds.start_le (h : Holds L d start slots) : start ≤ 65536 := Nat.le_trans h.top h.small

/-- What is written between the content offset and the offset array is none of the
slots' business. -/
theorem Holds.outside (h : Holds L d start slots) {lo hi : Nat} (hout : Outside d d' lo hi)
    (hlo : L.content + 2 ≤ lo) (hhi : hi ≤ L.ptrs) : Holds L d' start slots := by
  have hcc := L.count_content
  have hroom := h.room
  refine ⟨⟨?_, fun i p c hi' => ?_, fun s hs => ?_, ?_, h.near, h.few, hout.1 ▸ h.small⟩, ?_, h.low,
    h.apart, h.room, hout.1 ▸ h.top⟩
  · exact (hout.at_iff (.inl (by rw [be16_length]; omega))).mpr h.count
  · have hlt := (List.getElem?_eq_some_iff.mp hi').1
    exact (hout.at_iff (.inr (by unfold Layout.ptr; omega))).mpr (h.ptr i p c hi')
  · exact (hout.at_iff (.inr (by have := h.low s hs; omega))).mpr (h.cell s hs)
  · rw [hout.1]
    exact h.high
  · exact (hout.at_iff (.inl (by rw [be16_length]; omega))).mpr h.content

/-- A cell is put below the others and entered at position `i`. -/
theorem Holds.insert (h : Holds L d start slots) {i : Nat} {c : Bytes}
    (hi : i ≤ slots.length) (hstart : start' + c.length = start) (hlt : start' < 65536)
    (hroom : L.ptrs + (slots.length + 1) * 2 ≤ start') (hlen : d'.length = d.length)
    (hcount : At d' L.count (be16 (slots.length + 1))) (hcontent : At d' L.content (be16 start'))
    (hptr : ∀ j p b, (slots.insertIdx i (start', c))[j]? = some (p, b) → At d' (L.ptr j) (be16 p))
    (hcell : At d' start' c) (hold : ∀ o bs, start ≤ o → At d o bs → At d' o bs) :
    Holds L d' start' (slots.insertIdx i (start', c)) := by
  have hl : (slots.insertIdx i (start', c)).length = slots.length + 1 :=
    List.length_insertIdx_of_le_length hi _
  have hmem : ∀ s, s ∈ slots.insertIdx i (start', c) ↔ s = (start', c) ∨ s ∈ slots := fun s =>
    List.mem_insertIdx hi
  have htop := h.top
  have hsmall := h.small
  refine ⟨⟨hl ▸ hcount, hptr, ?_, ?_, ?_, by omega, hlen ▸ hsmall⟩, hcontent, ?_, ?_, hl ▸ hroom,
    by omega⟩
  · intro s hs
    rcases (hmem s).mp hs with rfl | hs
    · exact hcell
    · exact hold _ _ (h.low s hs) (h.cell s hs)
  · intro s hs
    rcases (hmem s).mp hs with rfl | hs
    · simp only; omega
    · rw [hlen]; exact h.high s hs
  · intro s hs
    rcases (hmem s).mp hs with rfl | hs
    · exact hlt
    · exact h.near s hs
  · intro s hs
    rcases (hmem s).mp hs with rfl | hs
    · exact Nat.le_refl _
    · have := h.low s hs; omega
  · rw [(List.perm_insertIdx (start', c) slots hi).pairwise_iff Apart.symm, List.pairwise_cons]
    exact ⟨fun s hs => .inl (by have := h.low s hs; simp only; omega), h.apart⟩

/-- An entry is taken out of the offset array; its cell stays behind as dead space. -/
theorem Holds.erase (h : Holds L d start slots) {i : Nat} (hi : i < slots.length)
    (hlen : d'.length = d.length) (hcount : At d' L.count (be16 (slots.length - 1)))
    (hcontent : At d' L.content (be16 start))
    (hptr : ∀ j p b, (slots.eraseIdx i)[j]? = some (p, b) → At d' (L.ptr j) (be16 p))
    (hold : ∀ o bs, start ≤ o → At d o bs → At d' o bs) :
    Holds L d' start (slots.eraseIdx i) := by
  have hl : (slots.eraseIdx i).length = slots.length - 1 := List.length_eraseIdx_of_lt hi
  have hmem : ∀ s ∈ slots.eraseIdx i, s ∈ slots := fun s hs => List.mem_of_mem_eraseIdx hs
  have hroom := h.room
  have hfew := h.few
  exact ⟨⟨hl ▸ hcount, hptr, fun s hs => hold _ _ (h.low s (hmem s hs)) (h.cell s (hmem s hs)),
    fun s hs => hlen ▸ h.high s (hmem s hs), fun s hs => h.near s (hmem s hs), by omega,
    hlen ▸ h.small⟩, hcontent,
    fun s hs => h.low s (hmem s hs), h.apart.sublist (List.eraseIdx_sublist _ _), by omega,
    hlen ▸ h.top⟩

/-- A cell is overwritten in place by one of the same length. -/
theorem Holds.set (h : Holds L d start slots) {i p : Nat} {c c' : Bytes}
    (hi : slots[i]? = some (p, c)) (hc : c'.length = c.length) (hlen : d'.length = d.length)
    (hcell : At d' p c')
    (hold : ∀ o bs, o + bs.length ≤ p ∨ p + c.length ≤ o → At d o bs → At d' o bs) :
    Holds L d' start (slots.set i (p, c')) := by
  have hp := h.low _ (List.mem_of_getElem? hi)
  have hroom := h.room
  have hcc := L.count_content
  have hcp := L.content_ptrs
  obtain ⟨hlt, hget⟩ := List.getElem?_eq_some_iff.mp hi
  simp only at hp
  have hlow : ∀ o bs, o + bs.length ≤ p → At d o bs → At d' o bs := fun o bs ho => hold o bs (.inl ho)
  refine ⟨⟨?_, ?_, ?_, ?_, ?_, by rw [List.length_set]; exact h.few, hlen ▸ h.small⟩, ?_, ?_, ?_, ?_,
    hlen ▸ h.top⟩
  · rw [List.length_set]; exact hlow _ _ (by simp; omega) h.count
  · intro j q b hj
    rw [List.getElem?_set] at hj
    have hjl : j < slots.length := by
      apply Nat.lt_of_not_le; intro hle
      rw [List.getElem?_eq_none hle] at hj
      split at hj
      · next he => subst he; omega
      · cases hj
    have hb : L.ptr j + 2 ≤ p := by unfold Layout.ptr; omega
    split at hj
    · next he =>
      subst he
      cases hj
      exact hlow _ _ (by simpa using hb) (h.ptr i p c hi)
    · exact hlow _ _ (by simpa using hb) (h.ptr j q b hj)
  · intro s hs
    obtain ⟨j, hj, rfl⟩ := List.mem_iff_getElem.mp hs
    rw [List.length_set] at hj
    rw [List.getElem_set]
    split
    · exact hcell
    · next hne =>
      have hap : Apart slots[j] (p, c) := by
        rw [← hget]
        rcases Nat.lt_or_gt_of_ne hne with hlt' | hgt
        · exact (List.pairwise_iff_getElem.mp h.apart i j hlt hj hlt').symm
        · exact List.pairwise_iff_getElem.mp h.apart j i hj hlt hgt
      exact hold _ _ hap (h.cell _ (List.getElem_mem hj))
  · intro s hs
    rcases List.mem_or_eq_of_mem_set hs with hs | rfl
    · rw [hlen]; exact h.high s hs
    · have := h.high _ (List.mem_of_getElem? hi)
      simp only at this ⊢; omega
  · intro s hs
    rcases List.mem_or_eq_of_mem_set hs with hs | rfl
    · exact h.near s hs
    · exact h.toLists.ptr_lt hi
  · exact hlow _ _ (by simp; omega) h.content
  · intro s hs
    rcases List.mem_or_eq_of_mem_set hs with hs | rfl
    · exact h.low s hs
    · exact hp
  · rw [List.pairwise_iff_getElem]
    intro a b ha hb hab
    have key := List.pairwise_iff_getElem.mp h.apart a b (by simpa using ha) (by simpa using hb) hab
    simp only [List.getElem_set]
    simp only [Apart] at key ⊢
    split <;> split
    · omega
    · next h1 _ => subst h1; rw [hget] at key; simpa [hc] using key
    · next _ h2 => subst h2; rw [hget] at key; simpa [hc] using key
    · exact key
  · simpa using hroom

end

/-! ## A page laid out afresh -/

/-- Bytes the cells take. -/
def total (cells : List Bytes) : Nat := (cells.map List.length).sum

@[simp] theorem total_nil : total [] = 0 := rfl

@[simp] theorem total_cons (c : Bytes) (cs : List Bytes) : total (c :: cs) = c.length + total cs := by
  simp [total]

theorem total_append (as bs : List Bytes) : total (as ++ bs) = total as + total bs := by
  simp [total]

theorem total_perm {as bs : List Bytes} (h : as.Perm bs) : total as = total bs :=
  (h.map List.length).sum_nat

theorem total_le_mul {n : Nat} : ∀ {cs : List Bytes}, (∀ c ∈ cs, c.length ≤ n) →
    total cs ≤ n * cs.length
  | [], _ => Nat.zero_le _
  | c :: cs, h => by
    have hc := h c List.mem_cons_self
    have ih := total_le_mul fun c hc => h c (List.mem_cons_of_mem _ hc)
    rw [total_cons, List.length_cons, Nat.mul_succ]
    omega

theorem le_mul_total {n : Nat} : ∀ {cs : List Bytes}, (∀ c ∈ cs, n ≤ c.length) →
    n * cs.length ≤ total cs
  | [], _ => Nat.le_refl _
  | c :: cs, h => by
    have hc := h c List.mem_cons_self
    have ih := le_mul_total fun c hc => h c (List.mem_cons_of_mem _ hc)
    rw [total_cons, List.length_cons, Nat.mul_succ]
    omega

/-- The cells one after another up to `top`. -/
def freshSlots (top : Nat) : List Bytes → List Slot
  | [] => []
  | c :: cs => (top - total (c :: cs), c) :: freshSlots top cs

@[simp] theorem freshSlots_length (top : Nat) : ∀ cs, (freshSlots top cs).length = cs.length
  | [] => rfl
  | c :: cs => by rw [freshSlots, List.length_cons, List.length_cons, freshSlots_length top cs]

@[simp] theorem freshSlots_map_snd (top : Nat) : ∀ cs, (freshSlots top cs).map (·.2) = cs
  | [] => rfl
  | c :: cs => by rw [freshSlots, List.map_cons, freshSlots_map_snd top cs]

theorem freshSlots_getElem? (top : Nat) {cs : List Bytes} {i : Nat} {c : Bytes}
    (h : cs[i]? = some c) : ∃ ptr, (freshSlots top cs)[i]? = some (ptr, c) := by
  rw [← freshSlots_map_snd top cs, List.getElem?_map, Option.map_eq_some_iff] at h
  obtain ⟨⟨ptr, c'⟩, hslot, rfl⟩ := h
  exact ⟨ptr, hslot⟩

theorem freshSlots_bounds (top : Nat) : ∀ (cs : List Bytes), total cs ≤ top →
    ∀ s ∈ freshSlots top cs, top - total cs ≤ s.1 ∧ s.1 + s.2.length ≤ top
  | [], _, s, hs => by cases hs
  | c :: cs, h, s, hs => by
    rw [total_cons] at h ⊢
    rcases List.mem_cons.mp hs with rfl | hs
    · simp only [total_cons]; omega
    · have := freshSlots_bounds top cs (by omega) s hs; omega

theorem freshSlots_apart {top : Nat} : ∀ {cs : List Bytes}, total cs ≤ top →
    (freshSlots top cs).Pairwise Apart
  | [], _ => List.Pairwise.nil
  | c :: cs, h => by
    rw [total_cons] at h
    refine List.pairwise_cons.mpr ⟨fun s hs => .inl ?_, freshSlots_apart (by omega)⟩
    have := freshSlots_bounds top cs (by omega) s hs
    simp only [total_cons]; omega

theorem Holds.fresh (L : Layout) (d : Bytes) (cells : List Bytes) (htotal : total cells ≤ d.length)
    (hroom : L.ptrs + cells.length * 2 ≤ d.length - total cells) (hsmall : d.length < 65536)
    (hcount : At d L.count (be16 cells.length))
    (hcontent : At d L.content (be16 (d.length - total cells)))
    (hptr : ∀ i p c, (freshSlots d.length cells)[i]? = some (p, c) → At d (L.ptr i) (be16 p))
    (hcell : ∀ s ∈ freshSlots d.length cells, At d s.1 s.2) :
    Holds L d (d.length - total cells) (freshSlots d.length cells) where
  count := by rw [freshSlots_length]; exact hcount
  content := hcontent
  ptr := hptr
  cell := hcell
  low := fun s hs => (freshSlots_bounds _ _ htotal s hs).1
  high := fun s hs => (freshSlots_bounds _ _ htotal s hs).2
  apart := freshSlots_apart htotal
  near := fun s hs => by have := (freshSlots_bounds _ _ htotal s hs).2; omega
  few := by rw [freshSlots_length]; omega
  small := hsmall.le
  room := by rw [freshSlots_length]; exact hroom
  top := by omega

end Lib.Slotted
