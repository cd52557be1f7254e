import Sqllite.L2Storage.Btree

/-!
# Reads of arbitrary pages

What the read paths of the B-tree do with the bytes of one page, when these can be
anything: a descent goes on at a child (`Descent.child`), a cursor reads an entry
(`entryAt`), searches a leaf (`seekAt`) or turns to the next child (`siblingAt`). A
read is `Checked` if it returns, or says that the page is corrupt. Only some of the
offsets on a page are compared with its length before they are used; the others are
what `Descent.Inside`, `EntryInside`, `SeekInside` and `SiblingInside` ask for.

* `Descent.checked_iff`, `entryAt_checked`, `seekAt_checked`, `siblingAt_checked`.
-/
namespace Sqllite
open Lib.Run Lib.Span Lib.Slotted

/-! ## Checked reads -/

/-- The call returns, or answers that its bytes are corrupt: no index is out of
bounds and nothing overflows. -/
def Checked {α : Type} : Result α → Prop
  | .ok _ => True
  | .error (.err (.sql code _)) => code = .corrupt
  | .error _ => False

instance {α : Type} (r : Result α) : Decidable (Checked r) :=
  match r with
  | .ok _ => isTrue trivial
  | .error (.err (.sql code _)) => inferInstanceAs (Decidable (code = .corrupt))
  | .error (.err (.io _)) => isFalse id
  | .error (.err (.parse _)) => isFalse id
  | .error .panic => isFalse id

section
variable {α β : Type} {d : Bytes}

theorem checked_error {e : Fault SqlliteError} :
    Checked (.error e : Result β) ↔ Checked (.error e : Result α) := by
  rcases e with (_ | _ | _) | _ <;> exact Iff.rfl

theorem checked_bind {x : Result α} {f : α → Result β} :
    Checked (x >>= f) ↔ Checked x ∧ ∀ a, x = .ok a → Checked (f a) := by
  cases x with
  | ok a => exact ⟨fun h => ⟨trivial, fun b hb => by cases hb; exact h⟩, fun h => h.2 a rfl⟩
  | error e => exact checked_error.trans ⟨fun h => ⟨h, fun b hb => nomatch hb⟩, fun h => h.1⟩

theorem bind_or {x : Result α} {f : α → Result β} (hx : x = panicked ∨ Checked x)
    (hf : ∀ a, x = .ok a → f a = panicked ∨ Checked (f a)) :
    (x >>= f) = panicked ∨ Checked (x >>= f) := by
  rcases hx with rfl | hx
  · exact .inl rfl
  · cases x with
    | ok a => exact hf a rfl
    | error e => exact .inr (checked_bind.mpr ⟨hx, fun a ha => nomatch ha⟩)

theorem checked_ite {c : Prop} [Decidable c] {x y : Result α} (hx : c → Checked x)
    (hy : ¬ c → Checked y) : Checked (if c then x else y) := by
  split
  · exact hx ‹_›
  · exact hy ‹_›

theorem checked_ok (a : α) : Checked (.ok a : Result α) := trivial

theorem checked_pure (a : α) : Checked (pure a : Result α) := trivial

theorem checked_fail (message : String) : Checked (fail .corrupt message : Result α) := rfl

theorem checked_slice {lo hi : Nat} : Checked (slice d lo hi) ↔ lo ≤ hi ∧ hi ≤ d.length := by
  unfold slice
  split
  · exact iff_of_true trivial ‹_›
  · exact iff_of_false id ‹_›

theorem checked_byteAt {i : Nat} : Checked (byteAt d i) ↔ i < d.length := by
  unfold byteAt
  cases h : d[i]? with
  | some b => exact iff_of_true trivial (List.getElem?_eq_some_iff.mp h).1
  | none => exact iff_of_false id (Nat.not_lt.mpr (List.getElem?_eq_none_iff.mp h))

theorem checked_readU16Be {off : Nat} : Checked (readU16Be d off) ↔ off + 2 ≤ d.length := by
  rw [readU16Be, checked_bind, checked_slice]
  exact ⟨fun h => h.1.2, fun h => ⟨⟨Nat.le_add_right _ _, h⟩, fun _ _ => trivial⟩⟩

theorem checked_readU32Be {off : Nat} : Checked (readU32Be d off) ↔ off + 4 ≤ d.length := by
  rw [readU32Be, checked_bind, checked_slice]
  exact ⟨fun h => h.1.2, fun h => ⟨⟨Nat.le_add_right _ _, h⟩, fun _ _ => trivial⟩⟩

theorem checked_usizeAdd {a b : Nat} : Checked (usizeAdd a b) ↔ a + b < 2 ^ 64 := by
  unfold usizeAdd
  split
  · exact iff_of_true trivial ‹_›
  · exact iff_of_false id ‹_›

theorem checked_withCapacity {n size : Nat} : Checked (withCapacity n size) ↔ n * size < 2 ^ 63 := by
  unfold withCapacity
  split
  · exact iff_of_true trivial ‹_›
  · exact iff_of_false id ‹_›

theorem usizeAdd_ok {a b c : Nat} (h : usizeAdd a b = .ok c) : c = a + b := by
  unfold usizeAdd at h
  split at h
  · cases h
    rfl
  · cases h

/-- A varint is read with a look at the length for every byte. -/
theorem readVarintGo_checked (d : Bytes) (off : Nat) : ∀ (n result : Nat), n ≠ 0 →
    Checked (readVarintGo d off n result)
  | 0, _, h => absurd rfl h
  | n + 1, result, _ => by
    rw [readVarintGo]
    simp only
    split
    · rfl
    · split
      · trivial
      · next hn =>
        split
        · trivial
        · exact readVarintGo_checked d off n _ hn

theorem checked_readVarint (d : Bytes) (off : Nat) : Checked (readVarint d off) := by
  unfold readVarint
  split
  · rfl
  · exact readVarintGo_checked d off _ _ (by decide)

/-! ## Records -/

theorem readSerials_checked (d : Bytes) (count : Nat) : ∀ off, Checked (readSerials d count off) := by
  induction count with
  | zero => exact fun _ => trivial
  | succ count ih =>
    intro off
    rw [readSerials, checked_bind]
    refine ⟨checked_readVarint d off, fun serial _ => ?_⟩
    rw [checked_bind]
    exact ⟨ih (off + serial.2), fun _ _ => trivial⟩

theorem decodeInt_checked (d : Bytes) (off n : Nat) (hn : 1 ≤ n) : Checked (decodeInt d off n) := by
  rw [decodeInt, checked_bind]
  refine ⟨?_, fun _ _ => trivial⟩
  unfold readInt
  split
  · rfl
  · rw [checked_bind, checked_slice]
    refine ⟨⟨by omega, by omega⟩, fun bytes _ => ?_⟩
    rw [checked_bind, checked_byteAt]
    exact ⟨by omega, fun _ _ => trivial⟩

/-- A value of a record is read only after a look at the length. -/
theorem decodeSerial_checked (d : Bytes) (st off : Nat) : Checked (decodeSerial st d off) := by
  have hbody : ∀ (len : Nat) (message : String) (f : Bytes → Value), Checked
      (if off + len > d.length then fail .corrupt message
        else do
          let bytes ← slice d off (off + len)
          pure (f bytes, len)) := by
    intro len message f
    split
    · rfl
    · rw [checked_bind, checked_slice]
      exact ⟨⟨by omega, by omega⟩, fun _ _ => trivial⟩
  unfold decodeSerial
  refine checked_ite (fun _ => trivial) fun _ => ?_
  refine checked_ite (fun _ => decodeInt_checked d off 1 (by decide)) fun _ => ?_
  refine checked_ite (fun _ => decodeInt_checked d off 2 (by decide)) fun _ => ?_
  refine checked_ite (fun _ => decodeInt_checked d off 3 (by decide)) fun _ => ?_
  refine checked_ite (fun _ => decodeInt_checked d off 4 (by decide)) fun _ => ?_
  refine checked_ite (fun _ => decodeInt_checked d off 6 (by decide)) fun _ => ?_
  refine checked_ite (fun _ => decodeInt_checked d off 8 (by decide)) fun _ => ?_
  refine checked_ite (fun _ => hbody 8 _ fun bytes => .real (UInt64.ofNat (ofLE bytes))) fun _ => ?_
  refine checked_ite (fun _ => hbody _ _ fun bytes => .text (fromUtf8Lossy bytes)) fun _ => ?_
  exact checked_ite (fun _ => hbody _ _ fun bytes => .blob bytes) fun _ => rfl

theorem decodeColumns_checked (d : Bytes) (sts : List Nat) : ∀ off, Checked (decodeColumns d sts off) := by
  induction sts with
  | nil => exact fun _ => trivial
  | cons st sts ih =>
    intro off
    rw [decodeColumns, checked_bind]
    refine ⟨decodeSerial_checked d st off, fun value _ => ?_⟩
    rw [checked_bind]
    exact ⟨ih (off + value.2), fun _ _ => trivial⟩

/-- The size of the header does not overflow with its own length, and the number of
columns is no more than a vector can have. -/
def RecordInside (d : Bytes) : Prop :=
  ∀ size n, readVarint d 0 = .ok (size, n) → n + size < 2 ^ 64 ∧
    (n + size ≤ d.length → ∀ count m, readVarint d n = .ok (count, m) → count * 8 < 2 ^ 63)

/-- It panics or is checked: there is no other error. -/
theorem recordByteLength_or (d : Bytes) : recordByteLength d = panicked ∨ Checked (recordByteLength d) := by
  have hheader : readHeader d = panicked ∨ Checked (readHeader d) := by
    refine bind_or (.inr (checked_readVarint d 0)) fun (size, n) _ => ?_
    refine bind_or ?_ fun headerEnd _ => ?_
    · unfold usizeAdd
      split
      · exact .inr trivial
      · exact .inl rfl
    · split
      · exact .inr rfl
      · refine bind_or (.inr (checked_readVarint d n)) fun (count, m) _ => bind_or ?_ fun _ _ => ?_
        · unfold withCapacity
          split
          · exact .inr trivial
          · exact .inl rfl
        · exact bind_or (.inr (readSerials_checked d _ _)) fun _ _ => .inr trivial
  exact bind_or hheader fun header _ => bind_or (.inr (decodeColumns_checked _ _ _)) fun _ _ => .inr trivial

theorem recordByteLength_checked : Checked (recordByteLength d) ↔ RecordInside d := by
  have hrest : ∀ header : Nat × List Nat, Checked (do
      let columns ← decodeColumns (d.drop header.1) header.2 0
      pure (header.1 + columns.2) : Result Nat) := fun header => by
    rw [checked_bind]
    exact ⟨decodeColumns_checked _ _ _, fun _ _ => trivial⟩
  have hheader : Checked (readHeader d) ↔ RecordInside d := by
    unfold readHeader RecordInside
    rw [checked_bind]
    simp only [checked_readVarint, true_and, Prod.forall, checked_bind, checked_usizeAdd]
    refine forall₃_congr fun size n _ => and_congr_right fun hfits => ?_
    have hadd : usizeAdd n size = .ok (n + size) := if_pos hfits
    simp only [hadd, Except.ok.injEq, forall_eq']
    by_cases hle : n + size ≤ d.length
    · rw [if_neg (by omega)]
      simp only [checked_bind, checked_readVarint, true_and, Prod.forall, checked_withCapacity,
        readSerials_checked, checked_pure, implies_true, and_true, hle, true_imp_iff]
    · rw [if_pos (by omega)]
      exact iff_of_true rfl fun h => absurd h hle
  rw [recordByteLength, checked_bind, hheader]
  exact ⟨fun h => h.1, fun h => ⟨h, fun header _ => hrest header⟩⟩

/-! ## Index payloads -/

/-- At `k` bytes of key the loop of `split_index_payload` goes on: the key is no
record, or the row id behind it does not end with the payload. -/
def SplitPasses (payload : Bytes) (k : Nat) : Prop :=
  (∃ e, recordByteLength (payload.take k) = .error (.err e)) ∨
    ∃ len rowid n, recordByteLength (payload.take k) = .ok len ∧
      readVarint payload k = .ok (rowid, n) ∧ k + n ≠ payload.length

/-- Every key that the loop comes to, the long ones first, is read inside its bytes. -/
def SplitInside (payload : Bytes) (n : Nat) : Prop :=
  ∀ k, 1 ≤ k → k ≤ n → (∀ j, k < j → j ≤ n → SplitPasses payload j) →
    RecordInside (payload.take k)

theorem splitIndexPayloadGo_checked (payload : Bytes) : ∀ n,
    Checked (splitIndexPayloadGo payload n) ↔ SplitInside payload n
  | 0 => iff_of_true rfl fun k h1 h2 => absurd h1 (by omega)
  | n + 1 => by
    have hlast : SplitInside payload (n + 1) ↔ RecordInside (payload.take (n + 1)) ∧
        (SplitPasses payload (n + 1) → SplitInside payload n) := by
      constructor
      · intro h
        refine ⟨h (n + 1) (by omega) (Nat.le_refl _) fun j h1 h2 => by omega, fun hpass k h1 h2 hk => ?_⟩
        refine h k h1 (by omega) fun j h3 h4 => ?_
        by_cases hj : j = n + 1
        · rwa [hj]
        · exact hk j h3 (by omega)
      · intro h k h1 h2 hk
        by_cases hkn : k = n + 1
        · rw [hkn]
          exact h.1
        · exact h.2 (hk (n + 1) (by omega) (Nat.le_refl _)) k h1 (by omega)
            fun j h3 h4 => hk j h3 (by omega)
    rw [hlast, ← splitIndexPayloadGo_checked payload n, ← recordByteLength_checked,
      splitIndexPayloadGo]
    unfold SplitPasses
    cases hrec : recordByteLength (payload.take (n + 1)) with
    | error e =>
      cases e with
      | panic => exact iff_of_false id fun h => h.1
      | err e =>
        have herr := (recordByteLength_or (payload.take (n + 1))).resolve_left (by simp [hrec, panicked])
        rw [hrec] at herr
        exact ⟨fun h => ⟨herr, fun _ => h⟩, fun h => h.2 (.inl ⟨e, rfl⟩)⟩
    | ok len =>
      simp only [checked_bind, checked_readVarint, true_and, Prod.forall, checked_ok]
      constructor
      · rintro h (⟨e, he⟩ | ⟨_, rowid, m, -, hread, hne⟩)
        · cases he
        · have hgo := h rowid m hread
          rwa [if_neg hne] at hgo
      · intro h rowid m hread
        split
        · trivial
        · exact h (.inr ⟨len, rowid, m, rfl, hread, ‹_›⟩)

/-! ## Cells -/

section
variable {ptr : Nat}

/-- The payload of the index cell at `ptr` has an end. -/
def PayloadInside (d : Bytes) (ptr : Nat) : Prop :=
  ∀ len n, readVarint d ptr = .ok (len, n) → ptr + n + len < 2 ^ 64

theorem readIndexPayload_checked : Checked (readIndexPayload d ptr) ↔ PayloadInside d ptr := by
  unfold readIndexPayload PayloadInside
  simp only [checked_bind, checked_readVarint, true_and, Prod.forall, checked_usizeAdd]
  refine forall₃_congr fun len n _ => ⟨fun h => h.1, fun h => ⟨h, fun stop hstop => ?_⟩⟩
  rw [usizeAdd_ok hstop]
  split
  · rfl
  · exact checked_slice.mpr ⟨by omega, by omega⟩

/-- The parts of an index cell are read inside its bytes. -/
def IndexCellInside (d : Bytes) (ptr : Nat) : Prop :=
  PayloadInside d ptr ∧ ∀ payload, readIndexPayload d ptr = .ok payload →
    SplitInside payload (payload.length - 1)

/-- The record of the table cell at `ptr` is on the page. -/
def TableCellInside (d : Bytes) (ptr : Nat) : Prop :=
  ∀ key n len m, readVarint d ptr = .ok (key, n) → readVarint d (ptr + n) = .ok (len, m) →
    ptr + n + m + len ≤ d.length

/-- The parts of a leaf cell are read inside the page. -/
def EntryCellInside (flags : BtreeFlags) (d : Bytes) (ptr : Nat) : Prop :=
  if flags.blobkey then IndexCellInside d ptr else TableCellInside d ptr

theorem readEntry_checked (flags : BtreeFlags) :
    Checked (BtreeCursor.readEntry flags d ptr) ↔ EntryCellInside flags d ptr := by
  unfold BtreeCursor.readEntry EntryCellInside
  cases flags.blobkey with
  | true =>
    simp only [if_true, checked_bind, readIndexPayload_checked, IndexCellInside,
      checked_pure, implies_true, and_true, splitIndexPayload, splitIndexPayloadGo_checked]
  | false =>
    simp only [Bool.false_eq_true, if_false, readCellRowid, readPayload, bind_assoc, pure_bind,
      checked_bind, checked_readVarint, true_and, Prod.forall, checked_pure, implies_true,
      and_true, checked_slice, TableCellInside, Nat.le_add_right]
    exact ⟨fun h key n len m hkey hlen => h key n hkey len m hlen,
      fun h key n hkey len m hlen => h key n len m hkey hlen⟩

/-- The row id of a leaf cell is read inside the page. -/
theorem rowidAt_checked (flags : BtreeFlags) : Checked (BtreeCursor.rowidAt flags d ptr) ↔
    (flags.blobkey = true → IndexCellInside d ptr) := by
  unfold BtreeCursor.rowidAt
  cases flags.blobkey with
  | true =>
    simp only [if_true, checked_bind, readIndexPayload_checked, IndexCellInside,
      checked_pure, implies_true, and_true, splitIndexPayload, splitIndexPayloadGo_checked,
      true_imp_iff]
  | false =>
    simp only [Bool.false_eq_true, if_false, checked_bind, readCellRowid, checked_readVarint,
      checked_pure, implies_true, and_true, false_imp_iff]

/-- The child of an interior cell is on the page, and in an index page so is its key. -/
def ChildInside (index : Bool) (d : Bytes) (ptr : Nat) : Prop :=
  ptr + 4 ≤ d.length ∧ (index = true → ∀ len n, readVarint d (ptr + 4) = .ok (len, n) →
    ptr + 4 + n + len ≤ d.length)

theorem readInteriorTableCell_checked :
    Checked (readInteriorTableCell d ptr) ↔ ChildInside false d ptr := by
  simp only [readInteriorTableCell, checked_bind, checked_readU32Be, checked_readVarint,
    checked_pure, implies_true, and_true, ChildInside, Bool.false_eq_true, false_imp_iff]

theorem readInteriorIndexCell_checked :
    Checked (readInteriorIndexCell d ptr) ↔ ChildInside true d ptr := by
  simp only [readInteriorIndexCell, checked_bind, checked_readU32Be, checked_readVarint, true_and,
    Prod.forall, checked_pure, implies_true, and_true, ChildInside, true_imp_iff, checked_slice,
    Nat.le_add_right]
  refine and_congr_right fun hle => ?_
  obtain ⟨child, hchild⟩ := readU32Be_ok hle
  exact ⟨fun h => h child hchild, fun h _ _ => h⟩

end

/-! ## Searches -/

/-- The search passes over entry `i`. -/
def Passes {α : Type} (L : Layout) (d : Bytes) (f : Nat → Nat → Result (Option α)) (i : Nat) : Prop :=
  ∃ ptr, readU16Be d (L.ptr i) = .ok ptr ∧ f i ptr = .ok none

/-- Every entry that the search comes to, from entry `i` on, is on the page, and its
cell is as `cell` says. -/
def SearchInside {α : Type} (L : Layout) (d : Bytes) (f : Nat → Nat → Result (Option α))
    (cell : Nat → Prop) (i stop : Nat) : Prop :=
  ∀ k, i ≤ k → k < stop → (∀ j, i ≤ j → j < k → Passes L d f j) →
    L.ptr k + 2 ≤ d.length ∧ ∀ ptr, readU16Be d (L.ptr k) = .ok ptr → cell ptr

theorem searchInside_succ {L : Layout} {f : Nat → Nat → Result (Option α)} {cell : Nat → Prop}
    {i stop : Nat} (h : i < stop) : SearchInside L d f cell i stop ↔
      (L.ptr i + 2 ≤ d.length ∧ ∀ ptr, readU16Be d (L.ptr i) = .ok ptr → cell ptr) ∧
      (Passes L d f i → SearchInside L d f cell (i + 1) stop) := by
  constructor
  · intro hs
    refine ⟨hs i (Nat.le_refl i) h fun j h1 h2 => by omega, fun hpass k h1 h2 hk => ?_⟩
    refine hs k (by omega) h2 fun j h3 h4 => ?_
    by_cases hj : j = i
    · rwa [hj]
    · exact hk j (by omega) h4
  · rintro ⟨hfirst, hrest⟩ k h1 h2 hk
    by_cases hki : k = i
    · rwa [hki]
    · exact hrest (hk i (Nat.le_refl i) (by omega)) k (by omega) h2 fun j h3 h4 => hk j (by omega) h4

theorem findCell_checked {L : Layout} {f : Nat → Nat → Result (Option α)} {cell : Nat → Prop}
    (hf : ∀ i ptr, Checked (f i ptr) ↔ cell ptr) : ∀ n i,
    Checked (findCell L d f n i) ↔ SearchInside L d f cell i (i + n)
  | 0, i => iff_of_true trivial fun k h1 h2 => absurd h2 (by omega)
  | n + 1, i => by
    rw [searchInside_succ (Nat.lt_add_of_pos_right (Nat.succ_pos n)), findCell, checked_bind,
      checked_readU16Be]
    have ih := findCell_checked (L := L) hf n (i + 1)
    rw [Nat.add_assoc, Nat.add_comm 1] at ih
    constructor
    · rintro ⟨hle, h⟩
      refine ⟨⟨hle, fun ptr hptr => (hf i ptr).mp (checked_bind.mp (h ptr hptr)).1⟩, ?_⟩
      rintro ⟨ptr, hptr, hnone⟩
      exact ih.mp ((checked_bind.mp (h ptr hptr)).2 none hnone)
    · rintro ⟨⟨hle, hcell⟩, hrest⟩
      refine ⟨hle, fun ptr hptr => checked_bind.mpr ⟨(hf i ptr).mpr (hcell ptr hptr), fun found hfound => ?_⟩⟩
      cases found with
      | some a => trivial
      | none => exact ih.mpr (hrest ⟨ptr, hptr, hfound⟩)

end

/-! ## Interior pages -/

section
variable {d : Bytes} {pgno : Nat}

/-- The searched cells of a table's interior page. -/
def tableProbe (d : Bytes) (key : Int) (i ptr : Nat) : Result (Option (Nat × Nat)) := do
  let (child, cellKey) ← readInteriorTableCell d ptr
  pure (if key ≤ cellKey then some (child, i) else none)

/-- The searched cells of an index's interior page. -/
def indexProbe (d key : Bytes) (i ptr : Nat) : Result (Option (Nat × Nat)) := do
  let (child, cellKey) ← readInteriorIndexCell d ptr
  pure (if cellKey < key then none else some (child, i))

/-- The number of cells that the page claims to have. -/
def cellCount (d : Bytes) (h : Nat) : Nat :=
  match readU16Be d (h + 3) with
  | .ok n => n
  | .error _ => 0

theorem readCount_ok {h : Nat} (hlen : h + 12 ≤ d.length) :
    readU16Be d (h + 3) = .ok (cellCount d h) := by
  unfold cellCount
  cases hread : readU16Be d (h + 3) with
  | ok n => rfl
  | error e =>
    rw [readU16Be, slice, if_pos ⟨Nat.le_add_right _ _, by omega⟩] at hread
    cases hread

/-- A search for the child of a key. -/
theorem searchChild_checked {h : Nat} (hlen : h + 12 ≤ d.length)
    {f : Nat → Nat → Result (Option (Nat × Nat))} {cell : Nat → Prop}
    (hf : ∀ i ptr, Checked (f i ptr) ↔ cell ptr) : Checked (do
      let count ← readU16Be d (h + 3)
      let found ← findCell (interiorLayout h) d f count 0
      match found with
      | some c => pure c
      | none => do
        let child ← readU32Be d (h + 8)
        pure (child, count) : Result (Nat × Nat)) ↔
    SearchInside (interiorLayout h) d f cell 0 (cellCount d h) := by
  rw [readCount_ok hlen, Res.ok_bind, checked_bind, findCell_checked hf, Nat.zero_add]
  refine ⟨fun h => h.1, fun h => ⟨h, fun found _ => ?_⟩⟩
  cases found with
  | some c => trivial
  | none => exact checked_bind.mpr ⟨checked_readU32Be.mpr hlen, fun _ _ => trivial⟩

theorem findChildPageTable_checked {h : Nat} (hlen : h + 12 ≤ d.length) (key : Int) :
    Checked (findChildPageTable d h key) ↔
      SearchInside (interiorLayout h) d (tableProbe d key) (ChildInside false d) 0 (cellCount d h) :=
  searchChild_checked hlen fun _ _ => checked_bind.trans
    ⟨fun h => readInteriorTableCell_checked.mp h.1,
      fun h => ⟨readInteriorTableCell_checked.mpr h, fun _ _ => trivial⟩⟩

theorem findChildPageIndex_checked {h : Nat} (hlen : h + 12 ≤ d.length) (key : Bytes) :
    Checked (findChildPageIndex d h key) ↔
      SearchInside (interiorLayout h) d (indexProbe d key) (ChildInside true d) 0 (cellCount d h) :=
  searchChild_checked hlen fun _ _ => checked_bind.trans
    ⟨fun h => readInteriorIndexCell_checked.mp h.1,
      fun h => ⟨readInteriorIndexCell_checked.mpr h, fun _ _ => trivial⟩⟩

theorem byteAt_eq {i : Nat} {b : UInt8} : byteAt d i = .ok b ↔ d[i]? = some b := by
  unfold byteAt
  cases d[i]? <;> simp [panicked]

theorem header_inside (pgno : Nat) (hlen : 512 ≤ d.length) : pageHeaderOffset pgno + 14 ≤ d.length := by
  unfold pageHeaderOffset
  split
  · exact Nat.le_trans (by decide) hlen
  · omega

/-- The child of a cell, of the page's kind. -/
theorem childOfCell_checked {h ptr : Nat} {pageType : UInt8} (ht : byteAt d h = .ok pageType) :
    Checked (childOfCell d h ptr) ↔ ChildInside (pageType ≠ PAGE_TYPE_INTERIOR_TABLE) d ptr := by
  rw [childOfCell, ht, Res.ok_bind]
  by_cases htable : pageType = PAGE_TYPE_INTERIOR_TABLE
  · rw [if_pos htable, checked_bind, readInteriorTableCell_checked, decide_eq_false (not_not.mpr htable)]
    exact ⟨fun h => h.1, fun h => ⟨h, fun _ _ => trivial⟩⟩
  · rw [if_neg htable, checked_bind, readInteriorIndexCell_checked, decide_eq_true htable]
    exact ⟨fun h => h.1, fun h => ⟨h, fun _ _ => trivial⟩⟩

/-- A descent: `find_leaf_for_key`, `descend_leftmost` (also called
`descend_leftmost_from`), `descend_for_key`. -/
inductive Descent where
  | route (key : Int)
  | leftmost
  | forKey (key : Int)

namespace Descent

/-- What a descent makes of a page: none where it arrives, or the page it goes on at. -/
def child (pgno : Nat) (d : Bytes) (descent : Descent) : Result (Option Nat) := do
  let h := pageHeaderOffset pgno
  let pageType ← byteAt d h
  match descent with
  | .route key =>
    if pageType = PAGE_TYPE_LEAF_TABLE then pure none
    else if pageType = PAGE_TYPE_INTERIOR_TABLE then do
      let (child, _) ← findChildPageTable d h key
      pure (some child)
    else fail .corrupt "invalid page in find_leaf"
  | .leftmost =>
    if BtreeCursor.isLeafType pageType then pure none
    else if BtreeCursor.isInteriorType pageType then do
      let child ← BtreeCursor.leftmostChild d h
      pure (some child)
    else fail .corrupt "bad page type"
  | .forKey key =>
    if BtreeCursor.isLeafType pageType then pure none
    else if BtreeCursor.isInteriorType pageType then do
      let (child, _) ← BtreeCursor.childForKey d h key pageType
      pure (some child)
    else fail .corrupt "bad page type"

/-- The page type of an interior page of a table, or of an index. -/
def interior (index : Bool) : UInt8 :=
  if index then PAGE_TYPE_INTERIOR_INDEX else PAGE_TYPE_INTERIOR_TABLE

/-- The key that the cells of an index are compared with. -/
def probe (key : Int) : Bytes := (encodeRecord [.integer (Int64.ofInt key)]).toOption.getD []

/-- What of an interior page, of a table or of an index, the descent reads is on it. -/
def Inside (pgno : Nat) (d : Bytes) (descent : Descent) : Prop :=
  let h := pageHeaderOffset pgno
  match descent with
  | .route key => d[h]? = some (interior false) →
    SearchInside (interiorLayout h) d (tableProbe d key) (ChildInside false d) 0 (cellCount d h)
  | .leftmost => ∀ index, d[h]? = some (interior index) → cellCount d h ≠ 0 →
    ∀ ptr, readU16Be d ((interiorLayout h).ptr 0) = .ok ptr → ChildInside index d ptr
  | .forKey key => ∀ index, d[h]? = some (interior index) →
    SearchInside (interiorLayout h) d
      (if index then indexProbe d (probe key) else tableProbe d key)
      (ChildInside index d) 0 (cellCount d h)

theorem encodeRecord_probe (key : Int) :
    encodeRecord [.integer (Int64.ofInt key)] = .ok (probe key) := by
  obtain ⟨enc, henc, -⟩ := decodeRecord_encodeRecord [.integer (Int64.ofInt key)] [] (by simp)
    fun v hv => by rw [List.mem_singleton.mp hv]; trivial
  rw [probe, henc]
  rfl

theorem interior_type {t : UInt8} (h : BtreeCursor.isInteriorType t = true) :
    ∃ index, t = interior index := by
  unfold BtreeCursor.isInteriorType at h
  rcases Bool.or_eq_true_iff.mp h with h | h
  · exact ⟨false, eq_of_beq h⟩
  · exact ⟨true, eq_of_beq h⟩

/-- A page of the cursors' descents: they arrive, go on, or answer that it is corrupt. -/
theorem byType {t : UInt8} {x y : Result (Option Nat)} {inside : Bool → Prop}
    (hx : Checked x) (hxy : ∀ index, t = interior index → (Checked y ↔ inside index)) :
    Checked (if BtreeCursor.isLeafType t then x else if BtreeCursor.isInteriorType t then y
      else fail .corrupt "bad page type") ↔ ∀ index, t = interior index → inside index := by
  by_cases hleaf : BtreeCursor.isLeafType t = true
  · rw [if_pos hleaf]
    refine iff_of_true hx ?_
    rintro (_ | _) rfl <;> cases hleaf
  · rw [if_neg hleaf]
    by_cases hint : BtreeCursor.isInteriorType t = true
    · rw [if_pos hint]
      obtain ⟨index, rfl⟩ := interior_type hint
      rw [hxy index rfl]
      refine ⟨fun h index' heq => ?_, fun h => h index rfl⟩
      have hsame : index = index' := by
        cases index <;> cases index' <;> first | rfl | cases heq
      exact hsame ▸ h
    · rw [if_neg hint]
      refine iff_of_true rfl ?_
      rintro (_ | _) rfl <;> exact absurd rfl hint

/-- A descent stays on a page exactly when what it reads there is on it. -/
theorem checked_iff (hlen : 512 ≤ d.length) (descent : Descent) :
    Checked (descent.child pgno d) ↔ descent.Inside pgno d := by
  have hh := header_inside pgno hlen
  have hlt : pageHeaderOffset pgno < d.length := by omega
  have htype : byteAt d (pageHeaderOffset pgno) = .ok d[pageHeaderOffset pgno] :=
    byteAt_eq.mpr (List.getElem?_eq_getElem hlt)
  have hat : ∀ index, d[pageHeaderOffset pgno]? = some (interior index) ↔
      d[pageHeaderOffset pgno] = interior index := fun index => by
    rw [List.getElem?_eq_getElem hlt, Option.some_inj]
  generalize d[pageHeaderOffset pgno] = t at htype hat
  unfold child Inside
  simp only [htype, Res.ok_bind, hat]
  have hpure : ∀ {α : Type} {x : Result α} {f : α → Nat}, Checked (do
      let a ← x
      pure (some (f a)) : Result (Option Nat)) ↔ Checked x := fun {_ _ _} =>
    checked_bind.trans ⟨fun h => h.1, fun h => ⟨h, fun _ _ => trivial⟩⟩
  cases descent with
  | route key =>
    dsimp only
    by_cases hleaf : t = PAGE_TYPE_LEAF_TABLE
    · rw [if_pos hleaf, hleaf]
      exact iff_of_true trivial fun h => absurd h (by decide)
    · rw [if_neg hleaf]
      by_cases htable : t = PAGE_TYPE_INTERIOR_TABLE
      · rw [if_pos htable, hpure, findChildPageTable_checked (by omega)]
        exact ⟨fun h _ => h, fun h => h htable⟩
      · rw [if_neg htable]
        exact iff_of_true rfl fun h => absurd h htable
  | leftmost =>
    refine byType trivial fun index ht => ?_
    rw [hpure, BtreeCursor.leftmostChild, readCount_ok (by omega), Res.ok_bind]
    by_cases hcount : cellCount d (pageHeaderOffset pgno) = 0
    · rw [if_pos hcount]
      exact iff_of_true (checked_readU32Be.mpr (by omega)) fun h => absurd hcount h
    · have hkind : decide (t ≠ PAGE_TYPE_INTERIOR_TABLE) = index := by
        rw [ht]
        cases index <;> rfl
      rw [if_neg hcount, checked_bind, checked_readU16Be]
      simp only [childOfCell_checked htype, hkind]
      exact ⟨fun h _ => h.2, fun h => ⟨hh, h hcount⟩⟩
  | forKey key =>
    refine byType trivial fun index ht => ?_
    rw [hpure, BtreeCursor.childForKey, ht]
    cases index with
    | false => exact findChildPageTable_checked (by omega) key
    | true =>
      rw [if_neg (by decide), encodeRecord_probe, Res.ok_bind]
      exact findChildPageIndex_checked (by omega) (probe key)

end Descent

/-! ## Leaves, and the way back up -/

/-- What `read_current` makes of a page: none behind its last cell.
mirrors sqllite-core/src/storage/btree.rs:1259-1286 -/
def entryAt (flags : BtreeFlags) (pgno : Nat) (d : Bytes) (i : Nat) : Result (Option (Int × Bytes)) := do
  let h := pageHeaderOffset pgno
  let count ← readU16Be d (h + 3)
  if i ≥ count then pure none
  else do
    let ptr ← readU16Be d ((leafLayout h).ptr i)
    let entry ← BtreeCursor.readEntry flags d ptr
    pure (some entry)

/-- The entry is on the page, if there is one. -/
def EntryInside (flags : BtreeFlags) (pgno : Nat) (d : Bytes) (i : Nat) : Prop :=
  let h := pageHeaderOffset pgno
  i < cellCount d h → (leafLayout h).ptr i + 2 ≤ d.length ∧
    ∀ ptr, readU16Be d ((leafLayout h).ptr i) = .ok ptr → EntryCellInside flags d ptr

/-- The searched cells of a leaf. -/
def rowidProbe (flags : BtreeFlags) (d : Bytes) (key : Int) (i ptr : Nat) : Result (Option Nat) := do
  let rowid ← BtreeCursor.rowidAt flags d ptr
  pure (if rowid ≥ key then some i else none)

/-- What `seek` makes of a leaf: the first cell that is not in front of the key.
mirrors sqllite-core/src/storage/btree.rs:1066-1088 -/
def seekAt (flags : BtreeFlags) (key : Int) (pgno : Nat) (d : Bytes) : Result (Option Nat) := do
  let h := pageHeaderOffset pgno
  let count ← readU16Be d (h + 3)
  findCell (leafLayout h) d (rowidProbe flags d key) count 0

/-- Of the leaf of a table no payload is read. -/
def SeekInside (flags : BtreeFlags) (key : Int) (pgno : Nat) (d : Bytes) : Prop :=
  let h := pageHeaderOffset pgno
  SearchInside (leafLayout h) d (rowidProbe flags d key)
    (fun ptr => flags.blobkey = true → IndexCellInside d ptr) 0 (cellCount d h)

/-- What `advance_to_next_leaf` makes of a page of the stack: none where the page has
no child in this slot.
mirrors sqllite-core/src/storage/btree.rs:1188-1203 -/
def siblingAt (pgno : Nat) (d : Bytes) (slot : Nat) : Result (Option Nat) := do
  let h := pageHeaderOffset pgno
  let count ← readU16Be d (h + 3)
  if slot ≤ count then do
    let child ← childPageAtSlot d h slot
    pure (some child)
  else pure none

/-- The cell of the slot is on the page; the last child has none. -/
def SiblingInside (pgno : Nat) (d : Bytes) (slot : Nat) : Prop :=
  let h := pageHeaderOffset pgno
  slot < cellCount d h → (interiorLayout h).ptr slot + 2 ≤ d.length ∧
    ∀ ptr, readU16Be d ((interiorLayout h).ptr slot) = .ok ptr →
      ChildInside (d[h]? ≠ some PAGE_TYPE_INTERIOR_TABLE) d ptr

theorem entryAt_checked (hlen : 512 ≤ d.length) (flags : BtreeFlags) (i : Nat) :
    Checked (entryAt flags pgno d i) ↔ EntryInside flags pgno d i := by
  have hh := header_inside pgno hlen
  unfold entryAt EntryInside
  dsimp only
  rw [readCount_ok (by omega), Res.ok_bind]
  by_cases hi : i < cellCount d (pageHeaderOffset pgno)
  · rw [if_neg (by omega), checked_bind, checked_readU16Be]
    simp only [checked_bind, readEntry_checked, checked_pure, implies_true, and_true]
    exact ⟨fun h _ => h, fun h => h hi⟩
  · rw [if_pos (by omega)]
    exact iff_of_true trivial fun h => absurd h hi

theorem seekAt_checked (hlen : 512 ≤ d.length) (flags : BtreeFlags) (key : Int) :
    Checked (seekAt flags key pgno d) ↔ SeekInside flags key pgno d := by
  have hh := header_inside pgno hlen
  have hprobe : ∀ i ptr, Checked (rowidProbe flags d key i ptr) ↔
      (flags.blobkey = true → IndexCellInside d ptr) := fun i ptr => by
    rw [rowidProbe, checked_bind, rowidAt_checked]
    exact ⟨fun h => h.1, fun h => ⟨h, fun _ _ => trivial⟩⟩
  unfold seekAt SeekInside
  dsimp only
  rw [readCount_ok (by omega), Res.ok_bind, findCell_checked hprobe, Nat.zero_add]

theorem siblingAt_checked (hlen : 512 ≤ d.length) (slot : Nat) :
    Checked (siblingAt pgno d slot) ↔ SiblingInside pgno d slot := by
  have hh := header_inside pgno hlen
  have hlt : pageHeaderOffset pgno < d.length := by omega
  have htype : byteAt d (pageHeaderOffset pgno) = .ok d[pageHeaderOffset pgno] :=
    byteAt_eq.mpr (List.getElem?_eq_getElem hlt)
  unfold siblingAt SiblingInside
  dsimp only
  rw [readCount_ok (by omega), Res.ok_bind, List.getElem?_eq_getElem hlt]
  by_cases hle : slot ≤ cellCount d (pageHeaderOffset pgno)
  · rw [if_pos hle, checked_bind, childPageAtSlot, readCount_ok (by omega), Res.ok_bind]
    by_cases hslot : slot < cellCount d (pageHeaderOffset pgno)
    · rw [if_pos hslot, checked_bind, checked_readU16Be]
      simp only [childOfCell_checked htype, checked_pure, implies_true, and_true, ne_eq,
        Option.some_inj]
      exact ⟨fun h _ => h, fun h => h hslot⟩
    · rw [if_neg hslot, if_pos (by omega)]
      exact iff_of_true ⟨checked_readU32Be.mpr (by omega), fun _ _ => trivial⟩
        fun h => absurd h hslot
  · rw [if_neg hle]
    exact iff_of_true trivial fun h => absurd (Nat.le_of_lt h) hle

end

/-! ## Other errors

A read that is not checked panics. -/

section
variable {α : Type} {d : Bytes} {ptr : Nat}

theorem slice_or (lo hi : Nat) : slice d lo hi = panicked ∨ Checked (slice d lo hi) := by
  unfold slice
  split
  · exact .inr trivial
  · exact .inl rfl

theorem byteAt_or (i : Nat) : byteAt d i = panicked ∨ Checked (byteAt d i) := by
  unfold byteAt
  cases d[i]? with
  | some b => exact .inr trivial
  | none => exact .inl rfl

theorem readU16Be_or (off : Nat) : readU16Be d off = panicked ∨ Checked (readU16Be d off) :=
  bind_or (slice_or _ _) fun _ _ => .inr trivial

theorem readU32Be_or (off : Nat) : readU32Be d off = panicked ∨ Checked (readU32Be d off) :=
  bind_or (slice_or _ _) fun _ _ => .inr trivial

theorem readVarint_or (off : Nat) : readVarint d off = panicked ∨ Checked (readVarint d off) :=
  .inr (checked_readVarint d off)

theorem readIndexPayload_or : readIndexPayload d ptr = panicked ∨ Checked (readIndexPayload d ptr) := by
  refine bind_or (readVarint_or _) fun (len, n) _ => bind_or ?_ fun stop _ => ?_
  · unfold usizeAdd
    split
    · exact .inr trivial
    · exact .inl rfl
  · split
    · exact .inr rfl
    · exact slice_or _ _

theorem splitIndexPayloadGo_or (payload : Bytes) : ∀ n,
    splitIndexPayloadGo payload n = panicked ∨ Checked (splitIndexPayloadGo payload n)
  | 0 => .inr rfl
  | n + 1 => by
    rw [splitIndexPayloadGo]
    split
    · exact .inl rfl
    · exact splitIndexPayloadGo_or payload n
    · refine bind_or (readVarint_or _) fun (rowid, m) _ => ?_
      dsimp only
      split
      · exact .inr trivial
      · exact splitIndexPayloadGo_or payload n

theorem readEntry_or (flags : BtreeFlags) : BtreeCursor.readEntry flags d ptr = panicked ∨
    Checked (BtreeCursor.readEntry flags d ptr) := by
  unfold BtreeCursor.readEntry
  split
  · refine bind_or readIndexPayload_or fun payload _ => ?_
    exact bind_or (splitIndexPayloadGo_or _ _) fun _ _ => .inr trivial
  · refine bind_or (bind_or (readVarint_or _) fun _ _ => .inr trivial) fun (rowid, off) _ => ?_
    refine bind_or ?_ fun _ _ => .inr trivial
    exact bind_or (readVarint_or _) fun _ _ => slice_or _ _

theorem rowidAt_or (flags : BtreeFlags) : BtreeCursor.rowidAt flags d ptr = panicked ∨
    Checked (BtreeCursor.rowidAt flags d ptr) := by
  unfold BtreeCursor.rowidAt
  split
  · refine bind_or readIndexPayload_or fun payload _ => ?_
    exact bind_or (splitIndexPayloadGo_or _ _) fun _ _ => .inr trivial
  · exact bind_or (bind_or (readVarint_or _) fun _ _ => .inr trivial) fun _ _ => .inr trivial

theorem readInteriorTableCell_or : readInteriorTableCell d ptr = panicked ∨
    Checked (readInteriorTableCell d ptr) :=
  bind_or (readU32Be_or _) fun _ _ => bind_or (readVarint_or _) fun _ _ => .inr trivial

theorem readInteriorIndexCell_or : readInteriorIndexCell d ptr = panicked ∨
    Checked (readInteriorIndexCell d ptr) :=
  bind_or (readU32Be_or _) fun _ _ => bind_or (readVarint_or _) fun _ _ =>
    bind_or (slice_or _ _) fun _ _ => .inr trivial

theorem findCell_or {L : Layout} {f : Nat → Nat → Result (Option α)}
    (hf : ∀ i ptr, f i ptr = panicked ∨ Checked (f i ptr)) : ∀ n i,
    findCell L d f n i = panicked ∨ Checked (findCell L d f n i)
  | 0, _ => .inr trivial
  | n + 1, i => by
    refine bind_or (readU16Be_or _) fun ptr _ => bind_or (hf i ptr) fun found _ => ?_
    cases found with
    | some a => exact .inr trivial
    | none => exact findCell_or hf n (i + 1)

/-- A search for the child of a key. -/
theorem searchChild_or {h : Nat} {f : Nat → Nat → Result (Option (Nat × Nat))}
    (hf : ∀ i ptr, f i ptr = panicked ∨ Checked (f i ptr)) {r : Result (Nat × Nat)}
    (hr : r = do
      let count ← readU16Be d (h + 3)
      let found ← findCell (interiorLayout h) d f count 0
      match found with
      | some c => pure c
      | none => do
        let child ← readU32Be d (h + 8)
        pure (child, count)) : r = panicked ∨ Checked r := by
  subst hr
  refine bind_or (readU16Be_or _) fun count _ => bind_or (findCell_or hf _ _) fun found _ => ?_
  cases found with
  | some c => exact .inr trivial
  | none => exact bind_or (readU32Be_or _) fun _ _ => .inr trivial

theorem findChildPageTable_or (h : Nat) (key : Int) : findChildPageTable d h key = panicked ∨
    Checked (findChildPageTable d h key) :=
  searchChild_or (f := tableProbe d key)
    (fun _ _ => bind_or readInteriorTableCell_or fun _ _ => .inr trivial) rfl

theorem findChildPageIndex_or (h : Nat) (key : Bytes) : findChildPageIndex d h key = panicked ∨
    Checked (findChildPageIndex d h key) :=
  searchChild_or (f := indexProbe d key)
    (fun _ _ => bind_or readInteriorIndexCell_or fun _ _ => .inr trivial) rfl

theorem childOfCell_or (h : Nat) : childOfCell d h ptr = panicked ∨ Checked (childOfCell d h ptr) := by
  refine bind_or (byteAt_or _) fun pageType _ => ?_
  split
  · exact bind_or readInteriorTableCell_or fun _ _ => .inr trivial
  · exact bind_or readInteriorIndexCell_or fun _ _ => .inr trivial

/-- A descent fails on a page with a panic, or the page is corrupt. -/
theorem Descent.child_or (descent : Descent) (pgno : Nat) :
    descent.child pgno d = panicked ∨ Checked (descent.child pgno d) := by
  refine bind_or (byteAt_or _) fun pageType _ => ?_
  cases descent with
  | route key =>
    dsimp only
    split
    · exact .inr trivial
    · split
      · exact bind_or (findChildPageTable_or _ key) fun _ _ => .inr trivial
      · exact .inr rfl
  | leftmost =>
    dsimp only
    split
    · exact .inr trivial
    · split
      · refine bind_or (bind_or (readU16Be_or _) fun count _ => ?_) fun _ _ => .inr trivial
        split
        · exact readU32Be_or _
        · exact bind_or (readU16Be_or _) fun _ _ => childOfCell_or _
      · exact .inr rfl
  | forKey key =>
    dsimp only
    split
    · exact .inr trivial
    · split
      · refine bind_or ?_ fun _ _ => .inr trivial
        unfold BtreeCursor.childForKey
        split
        · exact findChildPageTable_or _ key
        · rw [Descent.encodeRecord_probe]
          exact findChildPageIndex_or _ _
      · exact .inr rfl

theorem entryAt_or (flags : BtreeFlags) (pgno i : Nat) :
    entryAt flags pgno d i = panicked ∨ Checked (entryAt flags pgno d i) := by
  refine bind_or (readU16Be_or _) fun count _ => ?_
  split
  · exact .inr trivial
  · exact bind_or (readU16Be_or _) fun _ _ => bind_or (readEntry_or flags) fun _ _ => .inr trivial

theorem seekAt_or (flags : BtreeFlags) (key : Int) (pgno : Nat) :
    seekAt flags key pgno d = panicked ∨ Checked (seekAt flags key pgno d) :=
  bind_or (readU16Be_or _) fun _ _ =>
    findCell_or (f := rowidProbe flags d key)
      (fun _ _ => bind_or (rowidAt_or flags) fun _ _ => .inr trivial) _ _

theorem siblingAt_or (pgno slot : Nat) :
    siblingAt pgno d slot = panicked ∨ Checked (siblingAt pgno d slot) := by
  refine bind_or (readU16Be_or _) fun count _ => ?_
  split
  · refine bind_or (bind_or (readU16Be_or _) fun count' _ => ?_) fun _ _ => .inr trivial
    split
    · exact bind_or (readU16Be_or _) fun _ _ => childOfCell_or _
    · split
      · exact readU32Be_or _
      · exact .inr rfl
  · exact .inr trivial

end

end Sqllite
