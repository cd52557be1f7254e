import Sqllite.Lib.ByteOrder
import Sqllite.L1Encoding.Values
import Sqllite.L2Storage.IndexKeys
import Sqllite.L2Storage.IndexPages
import Sqllite.L2Storage.InsertSpec

/-!
# The order of an index (`storage/btree.rs`, `record.rs`)

An index keeps its entries in the order of the bytes of their payloads: the header
length, the column count, the serial type, then the value, integers little-endian, and
the row id last. `Value::compare` goes by the values.

* `payload_lt_iff`: on one column the serial types decide first, then the bodies.
* `leaf_sorted`: a leaf is kept in the order of the payloads.
* `indexOrder_iff`: where that is the order of the values.
-/
namespace Sqllite
open Lib Lib.Run Lib.Span Lib.Slotted

/-! ## Varints in order -/

/-- The digits of a varint, with as many of them as its number needs. -/
theorem writeVarint_digits {v : Nat} {bs : Bytes} (h : writeVarint v = .ok bs) :
    ∃ ds : List Nat, bs = varintBytes ds ∧ (∀ d ∈ ds, d < 128) ∧ ofDigits 128 0 ds = v ∧
      1 ≤ ds.length ∧ ds.length ≤ 9 ∧ ∀ k ≤ 8, (ds.length ≤ k + 1 ↔ v < 128 ^ (k + 1)) := by
  unfold writeVarint at h
  by_cases h0 : v = 0
  · rw [if_pos h0] at h
    cases h
    refine ⟨[0], rfl, by simp, by simp [ofDigits, h0], by simp, by simp, fun k _ => ?_⟩
    exact iff_of_true (by simp) (h0 ▸ Nat.pow_pos (by decide))
  · rw [if_neg h0] at h
    dsimp only at h
    split at h
    · next hlen =>
      cases h
      have hlong : ∀ k ≤ 9, 128 ^ k ≤ v → k < (digits128 10 v).length := fun k hk hle =>
        lt_digits128_length k 10 v hle (by omega)
      have hshort : ∀ k, v < 128 ^ k → (digits128 10 v).length ≤ k := fun k =>
        digits128_length k 10 v
      have hv : v < 128 ^ 9 := Nat.lt_of_not_le fun hle => by
        have := hlong 9 (Nat.le_refl 9) hle
        rw [MAX_VARINT_LEN] at hlen
        omega
      refine ⟨(digits128 10 v).reverse, rfl, fun d hd => digits128_lt 10 v d (by simpa using hd),
        ofDigits128_digits 10 v (by omega), ?_, ?_, fun k hk => ?_⟩
      · rw [List.length_reverse]
        exact List.length_pos_iff.mpr (digits128_ne_nil h0)
      · rw [List.length_reverse]
        exact hlen
      · rw [List.length_reverse]
        refine ⟨fun hle => Nat.lt_of_not_le fun hge => ?_, hshort (k + 1)⟩
        have := hlong (k + 1) (by omega) hge
        omega
    · cases h

theorem varintBytes_lt_iff : ∀ {ds es : List Nat}, ds.length = es.length →
    (∀ d ∈ ds, d < 128) → (∀ e ∈ es, e < 128) → (varintBytes ds < varintBytes es ↔ ds < es)
  | [], [], _, _, _ => by simp [varintBytes]
  | [d], [e], _, hd, he => by
    have hdb := ofNat_digit (hd d List.mem_cons_self)
    have heb := ofNat_digit (he e List.mem_cons_self)
    simp only [varintBytes, List.cons_lt_cons_iff, UInt8.lt_iff_toNat_lt, ← UInt8.toNat_inj, hdb, heb]
    simp
  | d :: d' :: ds, e :: e' :: es, h, hd, he => by
    have ih : varintBytes (d' :: ds) < varintBytes (e' :: es) ↔ d' :: ds < e' :: es :=
      varintBytes_lt_iff (Nat.succ.inj h)
      (fun x hx => hd x (List.mem_cons_of_mem _ hx)) (fun x hx => he x (List.mem_cons_of_mem _ hx))
    have hdb := or80_toNat (hd d List.mem_cons_self)
    have heb := or80_toNat (he e List.mem_cons_self)
    change (UInt8.ofNat d ||| 0x80) :: varintBytes (d' :: ds) <
      (UInt8.ofNat e ||| 0x80) :: varintBytes (e' :: es) ↔ _
    rw [List.cons_lt_cons_iff, ih, UInt8.lt_iff_toNat_lt, ← UInt8.toNat_inj, hdb, heb,
      Nat.add_lt_add_iff_right, Nat.add_right_cancel_iff, ← List.cons_lt_cons_iff]

/-- The varint of a lower number is shorter, or as long and in front. -/
theorem writeVarint_lt {v w : Nat} {s t : Bytes} (hs : writeVarint v = .ok s)
    (ht : writeVarint w = .ok t) (hlt : v < w) :
    s.length < t.length ∨ s.length = t.length ∧ s < t := by
  obtain ⟨ds, rfl, hd, hv, hdpos, hd9, hdlen⟩ := writeVarint_digits hs
  obtain ⟨es, rfl, he, hw, hepos, he9, helen⟩ := writeVarint_digits ht
  rw [varintBytes_length, varintBytes_length]
  have hle : ds.length ≤ es.length := by
    obtain ⟨k, hk⟩ : ∃ k, es.length = k + 1 := ⟨es.length - 1, by omega⟩
    have hupper := (helen k (by omega)).mp (by omega)
    have := (hdlen k (by omega)).mpr (by omega)
    omega
  obtain hlen | hlen := Nat.lt_or_eq_of_le hle
  · exact .inl hlen
  · refine .inr ⟨hlen, (varintBytes_lt_iff hlen hd he).mpr ?_⟩
    have hdigits := (ofDigits_lt_iff hlen hd he).mp
      (show ofDigits 128 0 ds < ofDigits 128 0 es by rwa [hv, hw])
    simpa using hdigits

theorem writeVarint_one_byte {n : Nat} (hn : n < 128) : writeVarint n = .ok [UInt8.ofNat n] := by
  obtain ⟨bs, hbs, -⟩ := writeVarint_ok (v := n) (by omega)
  obtain ⟨init, hinit, hnil⟩ := writeVarint_last hbs
  rw [hbs, hinit, hnil.mpr hn, Nat.mod_eq_of_lt hn]
  rfl

/-! ## Payloads in order -/

/-- What `insert_index` stores for a key and a row id. -/
def entryPayload (key : List Value) (rowid : Int) : Result Bytes := do
  let record ← encodeRecord key
  let n ← writeVarint (asU64 rowid)
  pure (record ++ n)

/-- The body of a value in its record. -/
def bodyOf (v : Value) : Bytes := encodeValue v (serialType v)

theorem encodeRecord_column {v : Value} (hv : v.Sized) : ∃ t, writeVarint (serialType v) = .ok t ∧
    t.length ≤ 8 ∧ encodeRecord [v] = .ok (UInt8.ofNat (1 + t.length) :: 1 :: (t ++ bodyOf v)) := by
  obtain ⟨t, ht, -, h8⟩ := writeVarint_ok (serialType_lt hv)
  refine ⟨t, ht, h8, ?_⟩
  have hcols : encodeColumns [v] = .ok (t ++ [], bodyOf v ++ []) := by
    rw [encodeColumns, ht]
    rfl
  have hcount : writeVarint [v].length = .ok [1] := writeVarint_one_byte (n := 1) (by decide)
  have hhead : writeVarint ([1] ++ (t ++ [])).length = .ok [UInt8.ofNat (1 + t.length)] := by
    have hlen : ([1] ++ (t ++ []) : Bytes).length = 1 + t.length := by simp [Nat.add_comm]
    rw [hlen]
    exact writeVarint_one_byte (by omega)
  rw [encodeRecord, hcount, Res.ok_bind, hcols, Res.ok_bind]
  dsimp only
  rw [hhead, Res.ok_bind]
  simp

theorem entryPayload_column {v : Value} (hv : v.Sized) {r : Int} {p : Bytes}
    (h : entryPayload [v] r = .ok p) : ∃ t n, writeVarint (serialType v) = .ok t ∧ t.length ≤ 8 ∧
      p = UInt8.ofNat (1 + t.length) :: 1 :: (t ++ (bodyOf v ++ n)) := by
  obtain ⟨t, ht, h8, hrec⟩ := encodeRecord_column hv
  obtain ⟨record, hrecord, h⟩ := Res.bind_eq_ok.mp h
  obtain ⟨n, -, h⟩ := Res.bind_eq_ok.mp h
  cases hrec.symm.trans hrecord
  cases h
  exact ⟨t, n, ht, h8, by simp⟩

/-- The serial type is lower, or the same and the body is in front. -/
def EncodedBefore (a b : Value) : Prop :=
  serialType a < serialType b ∨ serialType a = serialType b ∧ bodyOf a < bodyOf b

/-- Bytes that a value of a serial type takes. -/
def serialWidth (serial : Nat) : Nat :=
  if serial = SERIAL_NULL then 0
  else if serial ≤ SERIAL_FLOAT64 then intWidth serial
  else (serial - SERIAL_TEXT_MIN) / 2

theorem bodyOf_length (v : Value) : (bodyOf v).length = serialWidth (serialType v) := by
  cases v with
  | null => rfl
  | integer i =>
    obtain ⟨w, h1, h8, hw, -⟩ := serialType_integer i
    have hserial : 1 ≤ serialType (.integer i) ∧ serialType (.integer i) ≤ 6 := by
      unfold serialType
      dsimp only
      split_ifs <;> decide
    rw [bodyOf, encodeValue, toLeBytes, hw, leBytes_take w 8 _ h8, leBytes_length, serialWidth,
      if_neg (by rw [SERIAL_NULL]; omega), if_pos (by rw [SERIAL_FLOAT64]; omega), hw]
  | real r => exact leBytes_length 8 _
  | text s => simp [bodyOf, encodeValue, serialType, serialWidth, SERIAL_NULL, SERIAL_FLOAT64, SERIAL_TEXT_MIN]
  | blob b =>
    simp [bodyOf, encodeValue, serialType, serialWidth, SERIAL_NULL, SERIAL_FLOAT64, SERIAL_TEXT_MIN,
      SERIAL_BLOB_MIN]
    omega

theorem bodyOf_injective {a b : Value} (hs : serialType a = serialType b)
    (hb : bodyOf a = bodyOf b) : a = b := by
  have hread : ∀ v, decodeSerial (serialType v) (bodyOf v) 0 = .ok (v, (bodyOf v).length) := by
    intro v
    have hat := At.middle [] (bodyOf v) []
    rw [List.append_nil] at hat
    exact decodeSerial_encodeValue v hat (by rw [Nat.zero_add, bodyOf])
  have ha := hread a
  rw [hs, hb, hread b] at ha
  exact (congrArg Prod.fst (Except.ok.inj ha)).symm

theorem payload_lt {a b : Value} (ha : a.Sized) (hb : b.Sized) (h : EncodedBefore a b) {r s : Int}
    {p q : Bytes} (hp : entryPayload [a] r = .ok p) (hq : entryPayload [b] s = .ok q) : p < q := by
  obtain ⟨t, n, ht, ht8, rfl⟩ := entryPayload_column ha hp
  obtain ⟨u, m, hu, hu8, rfl⟩ := entryPayload_column hb hq
  rw [List.cons_lt_cons_iff, List.cons_lt_cons_iff, UInt8.lt_iff_toNat_lt, ofNat_digit (by omega),
    ofNat_digit (by omega)]
  obtain hlt | ⟨heq, hbody⟩ := h
  · obtain hlen | ⟨hlen, htu⟩ := writeVarint_lt ht hu hlt
    · exact .inl (by omega)
    · exact .inr ⟨by rw [hlen], .inr ⟨rfl, append_lt_append hlen htu _ _⟩⟩
  · cases (heq ▸ ht).symm.trans hu
    refine .inr ⟨rfl, .inr ⟨rfl, (append_lt_append_iff rfl).mpr (.inr ⟨rfl, ?_⟩)⟩⟩
    exact append_lt_append (by rw [bodyOf_length, bodyOf_length, heq]) hbody _ _

theorem encodedBefore_total {a b : Value} (hne : a ≠ b) : EncodedBefore a b ∨ EncodedBefore b a := by
  obtain hlt | heq | hgt := Nat.lt_trichotomy (serialType a) (serialType b)
  · exact .inl (.inl hlt)
  · cases hc : compare (bodyOf a) (bodyOf b) with
    | lt => exact .inl (.inr ⟨heq, compare_bytes_lt.mp hc⟩)
    | eq => exact absurd (bodyOf_injective heq (Std.LawfulEqOrd.eq_of_compare hc)) hne
    | gt =>
      have hlt := Std.OrientedCmp.lt_of_gt hc
      exact .inr (.inr ⟨heq.symm, compare_bytes_lt.mp hlt⟩)
  · exact .inr (.inl hgt)

/-- Whatever the row ids, the entries of two values are in the order of their encodings. -/
theorem payload_lt_iff {a b : Value} (ha : a.Sized) (hb : b.Sized) (hne : a ≠ b) {r s : Int}
    {p q : Bytes} (hp : entryPayload [a] r = .ok p) (hq : entryPayload [b] s = .ok q) :
    p < q ↔ EncodedBefore a b := by
  refine ⟨fun hlt => ?_, fun h => payload_lt ha hb h hp hq⟩
  obtain h | h := encodedBefore_total hne
  · exact h
  · exact absurd (payload_lt hb ha h hq hp) (List.lt_asymm hlt)

/-! ## Values in order -/

/-- A twos-complement number of `w` bytes. -/
def FitsIn (w : Nat) (i : Int) : Prop := -2 ^ (8 * w - 1) ≤ i ∧ i < 2 ^ (8 * w - 1)

instance (w : Nat) (i : Int) : Decidable (FitsIn w i) := inferInstanceAs (Decidable (_ ∧ _))

/-- `i` fits a width of the record format that `j` does not fit. -/
def Shorter (i j : Int) : Prop := ∃ w ∈ [1, 2, 3, 4, 6], FitsIn w i ∧ ¬ FitsIn w j

/-- Of two keys, the first one less than the second, the first one is in front in the index. -/
def InOrder : Value → Value → Prop
  | .null, _ => True
  | .integer i, .integer j => Shorter i.toInt j.toInt ∨
      ¬ Shorter j.toInt i.toInt ∧ LowBytesBefore i.toUInt64.toNat j.toUInt64.toNat
  | .integer _, .text _ => True
  | .integer _, .blob _ => True
  | .text s, .text t => (asBytes s).length ≤ (asBytes t).length
  | .text s, .blob b => (asBytes s).length ≤ b.length
  | .blob b, .text t => b.length < (asBytes t).length
  | .blob b, .blob c => b.length ≤ c.length
  | _, _ => False

theorem serialType_text (s : String) : serialType (.text s) = (asBytes s).length * 2 + 12 := rfl

theorem serialType_blob (b : Bytes) : serialType (.blob b) = b.length * 2 + 13 := rfl

theorem serialType_integer_le (i : Int64) :
    (1 ≤ serialType (.integer i) ∧ serialType (.integer i) ≤ 6) ∧
    (serialType (.integer i) ≤ 1 ↔ FitsIn 1 i.toInt) ∧ (serialType (.integer i) ≤ 2 ↔ FitsIn 2 i.toInt) ∧
    (serialType (.integer i) ≤ 3 ↔ FitsIn 3 i.toInt) ∧ (serialType (.integer i) ≤ 4 ↔ FitsIn 4 i.toInt) ∧
    (serialType (.integer i) ≤ 5 ↔ FitsIn 6 i.toInt) := by
  simp only [serialType, FitsIn, SERIAL_INT8, SERIAL_INT16, SERIAL_INT24, SERIAL_INT32, SERIAL_INT48,
    SERIAL_INT64]
  norm_num
  split_ifs <;> omega

theorem shorter_iff (i j : Int64) :
    Shorter i.toInt j.toInt ↔ serialType (.integer i) < serialType (.integer j) := by
  obtain ⟨hi, hi1, hi2, hi3, hi4, hi5⟩ := serialType_integer_le i
  obtain ⟨hj, hj1, hj2, hj3, hj4, hj5⟩ := serialType_integer_le j
  simp only [Shorter, List.mem_cons, List.not_mem_nil, or_false, exists_eq_or_imp, exists_eq_left,
    ← hi1, ← hi2, ← hi3, ← hi4, ← hi5, ← hj1, ← hj2, ← hj3, ← hj4, ← hj5]
  omega

theorem bodyOf_integer (i : Int64) :
    bodyOf (.integer i) = leBytes (intWidth (serialType (.integer i))) i.toUInt64.toNat := by
  obtain ⟨w, h1, h8, hw, -⟩ := serialType_integer i
  rw [bodyOf, encodeValue, toLeBytes, hw, leBytes_take w 8 _ h8]

/-- Integers of one width are in the order of the lowest byte that differs. -/
theorem encodedBefore_integer {i j : Int64} (hne : i ≠ j) :
    EncodedBefore (.integer i) (.integer j) ↔ InOrder (.integer i) (.integer j) := by
  change _ ↔ Shorter i.toInt j.toInt ∨
    ¬ Shorter j.toInt i.toInt ∧ LowBytesBefore i.toUInt64.toNat j.toUInt64.toNat
  rw [EncodedBefore, shorter_iff, shorter_iff]
  obtain hlt | heq | hgt := Nat.lt_trichotomy (serialType (.integer i)) (serialType (.integer j))
  · exact iff_of_true (.inl hlt) (.inl hlt)
  · have hbody : bodyOf (.integer i) < bodyOf (.integer j) ↔
        LowBytesBefore i.toUInt64.toNat j.toUInt64.toNat := by
      rw [bodyOf_integer, bodyOf_integer, heq]
      refine leBytes_lt_iff_of_ne fun hbytes => hne ?_
      have hsame : bodyOf (.integer i) = bodyOf (.integer j) := by
        rw [bodyOf_integer, bodyOf_integer, heq, hbytes]
      exact Value.integer.inj (bodyOf_injective heq hsame)
    rw [hbody]
    constructor <;> intro h <;> exact .inr ⟨by omega, (h.resolve_left (by omega)).2⟩
  · constructor <;> intro h <;> obtain h | h := h <;> omega

/-- A lower value is in front exactly if its encoding is. -/
theorem encodedBefore_iff {a b : Value} (ha : ∀ r, a ≠ .real r) (hb : ∀ r, b ≠ .real r)
    (h : a.compare b = .lt) : EncodedBefore a b ↔ InOrder a b := by
  cases a with
  | null =>
    refine iff_of_true (.inl ?_) trivial
    cases b with
    | null => cases h
    | integer j => exact (serialType_integer_le j).1.1
    | real r => exact absurd rfl (hb r)
    | text t => exact Nat.succ_pos _
    | blob c => exact Nat.succ_pos _
  | integer i =>
    have hi := (serialType_integer_le i).1.2
    cases b with
    | null => cases h
    | integer j =>
      refine encodedBefore_integer fun heq => ?_
      subst heq
      rw [Value.compare, Std.compare_self] at h
      cases h
    | real r => exact absurd rfl (hb r)
    | text t => exact iff_of_true (.inl (by rw [serialType_text]; omega)) trivial
    | blob c => exact iff_of_true (.inl (by rw [serialType_blob]; omega)) trivial
  | real r => exact absurd rfl (ha r)
  | text s =>
    cases b with
    | null => cases h
    | integer j =>
      have hj := (serialType_integer_le j).1.2
      refine iff_of_false (fun h => ?_) id
      rw [EncodedBefore, serialType_text] at h
      omega
    | real r => exact absurd rfl (hb r)
    | text t =>
      have hlt : bodyOf (.text s) < bodyOf (.text t) := compare_bytes_lt.mp h
      rw [EncodedBefore, serialType_text, serialType_text, InOrder, and_iff_left hlt]
      omega
    | blob c =>
      rw [EncodedBefore, serialType_text, serialType_blob, InOrder]
      omega
  | blob b' =>
    cases b with
    | null => cases h
    | integer j =>
      have hj := (serialType_integer_le j).1.2
      refine iff_of_false (fun h => ?_) id
      rw [EncodedBefore, serialType_blob] at h
      omega
    | real r => exact absurd rfl (hb r)
    | text t =>
      rw [EncodedBefore, serialType_blob, serialType_text, InOrder]
      omega
    | blob c =>
      have hlt : bodyOf (.blob b') < bodyOf (.blob c) := compare_bytes_lt.mp h
      rw [EncodedBefore, serialType_blob, serialType_blob, InOrder, and_iff_left hlt]
      omega

/-! ## Leaves -/

/-- A key of one column and a row id. -/
abbrev Entry := Value × Int

/-- The payload of an entry that has one. -/
def payloadOf (e : Entry) : Bytes :=
  match entryPayload [e.1] e.2 with
  | .ok p => p
  | .error _ => []

theorem payloadOf_eq {e : Entry} {p : Bytes} (h : entryPayload [e.1] e.2 = .ok p) :
    payloadOf e = p := by
  rw [payloadOf, h]

/-- The leaf of `insert_index` takes the entry in. -/
def insertEntry (d : Bytes) (h : Nat) (e : Entry) : Result (Option Bytes) := do
  let payload ← entryPayload [e.1] e.2
  let cell ← buildIndexCell payload
  tryInsertLeafCellIndex d h cell payload

/-- The entries one after the other, as long as there is room. -/
def insertEntries (h : Nat) : List Entry → Bytes → Result (Option Bytes)
  | [], d => .ok (some d)
  | e :: es, d => do
    match ← insertEntry d h e with
    | some d => insertEntries h es d
    | none => pure none

structure IndexLeaf (d : Bytes) (h start : Nat) (cells : List (Cell Entry)) : Prop where
  holds : Holds (leafLayout h) d start (cells.map (·.slot))
  near : start < 65536
  cell : ∀ c ∈ cells, entryPayload [c.val.1] c.val.2 = .ok (payloadOf c.val) ∧
    buildIndexCell (payloadOf c.val) = .ok c.bytes

section
variable {d d' : Bytes} {h start : Nat} {cells : List (Cell Entry)}

theorem IndexLeaf.readPayload (hp : IndexLeaf d h start cells) {c : Cell Entry} (hc : c ∈ cells) :
    readIndexPayload d c.ptr = .ok (payloadOf c.val) := by
  obtain ⟨n, hn, hb⟩ := Res.bind_eq_ok.mp (hp.cell c hc).2
  have hbytes : n ++ payloadOf c.val = c.bytes := Except.ok.inj hb
  have hat := hp.holds.cell _ (List.mem_map_of_mem hc)
  have hhigh := hp.holds.high _ (List.mem_map_of_mem hc)
  have hsmall := hp.holds.small
  change At d c.ptr c.bytes at hat
  change c.ptr + c.bytes.length ≤ d.length at hhigh
  rw [← hbytes, List.length_append] at hhigh
  rw [← hbytes] at hat
  obtain ⟨hvar, hpay⟩ := At.append.mp hat
  rw [readIndexPayload, readVarint_writeVarint (by omega) hn hvar, Res.ok_bind]
  dsimp only
  rw [usizeAdd, if_pos (by omega), Res.ok_bind, if_neg (by omega), slice_at hpay (by omega) rfl]

/-- Entries in the order of their payloads. -/
def Sorted (es : List Entry) : Prop := es.Pairwise fun e f => ¬ payloadOf f < payloadOf e

theorem IndexLeaf.insert (hp : IndexLeaf d h start cells) {e : Entry}
    (hrun : insertEntry d h e = .ok (some d')) :
    ∃ start' cells', IndexLeaf d' h start' cells' ∧
      (cells'.map (·.val)).Perm (e :: cells.map (·.val)) ∧
      (Sorted (cells.map (·.val)) → Sorted (cells'.map (·.val))) := by
  obtain ⟨payload, hpayload, hrun⟩ := Res.bind_eq_ok.mp hrun
  obtain ⟨cell, hcell, hrun⟩ := Res.bind_eq_ok.mp hrun
  have hof := payloadOf_eq hpayload
  have hbefore : ∀ c ∈ cells, beforeEntry d payload c.slot.1 =
      .ok (decide (payloadOf e < payloadOf c.val)) := by
    intro c hc
    change (readIndexPayload d c.ptr >>= _) = _
    rw [hp.readPayload hc, hof]
    rfl
  change tryInsertCell (leafLayout h) (beforeEntry d payload) d cell = _ at hrun
  by_cases hroom : (leafLayout h).ptr (cells.length + 1) + 1 ≤ start - cell.length
  · obtain ⟨d₁, hins, hholds, -⟩ := tryInsertCell_spec hp.holds hp.near hbefore hroom
    cases hins.symm.trans hrun
    have hle : cells.findIdx (fun c => decide (payloadOf e < payloadOf c.val)) ≤ cells.length :=
      List.findIdx_le_length
    refine ⟨start - cell.length, cells.insertIdx
      (cells.findIdx fun c => decide (payloadOf e < payloadOf c.val))
      ⟨start - cell.length, cell, e⟩, ⟨?_, ?_, fun c hc => ?_⟩, ?_, fun hs => ?_⟩
    · rw [List.map_insertIdx]
      exact hholds
    · have := hp.near
      omega
    · obtain rfl | hc := (List.mem_insertIdx hle).mp hc
      · rw [hof]
        exact ⟨hpayload, hcell⟩
      · exact hp.cell c hc
    · exact (List.perm_insertIdx _ _ hle).map _
    · rw [List.map_insertIdx]
      have hidx : cells.findIdx (fun c => decide (payloadOf e < payloadOf c.val)) =
          (cells.map (·.val)).findIdx fun f => decide (payloadOf e < payloadOf f) := by
        rw [List.findIdx_map]
        rfl
      rw [hidx]
      have htrans : ∀ a b d : Entry, payloadOf a < payloadOf b → payloadOf b < payloadOf d →
          payloadOf a < payloadOf d := fun _ _ _ => List.lt_trans
      refine insertIdx_findIdx_sorted ?_ htrans hs
      exact fun _ => List.lt_irrefl _
  · rw [tryInsertCell_full hp.holds hp.near hbefore (by omega)] at hrun
    cases hrun

/-- A leaf is kept in the order of the payloads: induction on the entries. -/
theorem leaf_sorted : ∀ {es : List Entry} {d : Bytes} {start : Nat} {cells : List (Cell Entry)},
    IndexLeaf d h start cells → insertEntries h es d = .ok (some d') →
    ∃ start' cells', IndexLeaf d' h start' cells' ∧
      (cells'.map (·.val)).Perm (es ++ cells.map (·.val)) ∧
      (Sorted (cells.map (·.val)) → Sorted (cells'.map (·.val)))
  | [], d, start, cells, hp, hrun => by
    cases hrun
    exact ⟨start, cells, hp, List.Perm.refl _, id⟩
  | e :: es, d, start, cells, hp, hrun => by
    obtain ⟨r, hr, hrun⟩ := Res.bind_eq_ok.mp hrun
    cases r with
    | none => cases hrun
    | some d₁ =>
      obtain ⟨start₁, cells₁, hp₁, hperm₁, hs₁⟩ := hp.insert hr
      obtain ⟨start₂, cells₂, hp₂, hperm₂, hs₂⟩ := leaf_sorted hp₁ hrun
      refine ⟨start₂, cells₂, hp₂, hperm₂.trans ?_, fun hs => hs₂ (hs₁ hs)⟩
      exact (hperm₁.append_left es).trans List.perm_middle

end

/-! ## The order of keys -/

/-- The byte order of an index on values of `S` is the order of `compare`, whatever the
row ids, and an index leaf filled from nothing is in that order. -/
structure IndexInOrder (S : Value → Prop) : Prop where
  payloads : ∀ a b, S a → S b → a.compare b = .lt → ∀ r s p q,
    entryPayload [a] r = .ok p → entryPayload [b] s = .ok q → p < q
  leaves : ∀ h d start d', ∀ es : List Entry, (∀ e ∈ es, S e.1) → IndexLeaf d h start [] →
    insertEntries h es d = .ok (some d') → ∃ start' cells, IndexLeaf d' h start' cells ∧
      (cells.map (·.val)).Perm es ∧
      (cells.map (·.val)).Pairwise fun e f => f.1.compare e.1 ≠ .lt

theorem compare_irrefl {a : Value} (ha : ∀ r, a ≠ .real r) : a.compare a ≠ .lt := by
  cases a with
  | real r => exact absurd rfl (ha r)
  | null => exact fun h => by cases h
  | integer i => exact fun h => by rw [Value.compare, Std.compare_self] at h; cases h
  | text s => exact fun h => by rw [Value.compare, Std.compare_self] at h; cases h
  | blob b => exact fun h => by rw [Value.compare, Std.compare_self] at h; cases h

theorem entryPayload_total {v : Value} (hv : v.Sized) : ∃ p, entryPayload [v] 0 = .ok p := by
  obtain ⟨t, -, -, hrec⟩ := encodeRecord_column hv
  rw [entryPayload, hrec]
  exact ⟨_, rfl⟩

/-- The order of an index is that of its keys exactly if every two of them are in order. -/
theorem indexOrder_iff (S : Value → Prop) (hS : ∀ v, S v → v.Sized ∧ ∀ r, v ≠ .real r) :
    IndexInOrder S ↔ ∀ a b, S a → S b → a.compare b = .lt → InOrder a b := by
  constructor
  · intro h a b ha hb hlt
    obtain ⟨hasize, har⟩ := hS a ha
    obtain ⟨hbsize, hbr⟩ := hS b hb
    obtain ⟨p, hp⟩ := entryPayload_total hasize
    obtain ⟨q, hq⟩ := entryPayload_total hbsize
    have hne : a ≠ b := fun heq => compare_irrefl har (heq ▸ hlt)
    rw [← encodedBefore_iff har hbr hlt, ← payload_lt_iff hasize hbsize hne hp hq]
    exact h.payloads a b ha hb hlt 0 0 p q hp hq
  · intro h
    have hpayloads : ∀ a b, S a → S b → a.compare b = .lt → ∀ r s p q,
        entryPayload [a] r = .ok p → entryPayload [b] s = .ok q → p < q := by
      intro a b ha hb hlt r s p q hp hq
      obtain ⟨hasize, har⟩ := hS a ha
      obtain ⟨hbsize, hbr⟩ := hS b hb
      exact payload_lt hasize hbsize ((encodedBefore_iff har hbr hlt).mpr (h a b ha hb hlt)) hp hq
    refine ⟨hpayloads, fun h d start d' es hes hp hrun => ?_⟩
    obtain ⟨start', cells, hp', hperm, hsorted⟩ := leaf_sorted hp hrun
    rw [List.map_nil, List.append_nil] at hperm
    refine ⟨start', cells, hp', hperm, (hsorted List.Pairwise.nil).imp_of_mem ?_⟩
    intro e f he hf hle hlt
    obtain ⟨c, hc, rfl⟩ := List.mem_map.mp he
    obtain ⟨c', hc', rfl⟩ := List.mem_map.mp hf
    exact hle (hpayloads _ _ (hes _ (hperm.mem_iff.mp hf)) (hes _ (hperm.mem_iff.mp he)) hlt _ _ _ _
      (hp'.cell c' hc').1 (hp'.cell c hc).1)

theorem indexOrder_iff_two : IndexInOrder (· ∈ [.null, .integer 1, .integer 2]) := by
  refine (indexOrder_iff _ ?_).mpr ?_
  · simp [Value.Sized]
  · have hlow : LowBytesBefore 1 2 := ⟨0, by decide⟩
    intro a b ha hb hlt
    simp only [List.mem_cons, List.not_mem_nil, or_false] at ha hb
    obtain rfl | rfl | rfl := ha
    · trivial
    · obtain rfl | rfl | rfl := hb
      · cases hlt
      · exact absurd hlt (by decide)
      · exact .inr ⟨by unfold Shorter; decide, hlow⟩
    · obtain rfl | rfl | rfl := hb
      · cases hlt
      · exact absurd hlt (by decide)
      · exact absurd hlt (by decide)

/-- -1 is stored as the byte 255, behind 1. -/
theorem index_order_breaks : Value.compare (.integer (-1)) (.integer 1) = .lt ∧
    entryPayload [.integer (-1)] 1 = .ok [2, 1, 1, 255, 1] ∧
    entryPayload [.integer 1] 2 = .ok [2, 1, 1, 1, 2] ∧
    ¬ ([2, 1, 1, 255, 1] : Bytes) < [2, 1, 1, 1, 2] ∧
    ¬ IndexInOrder (· ∈ [.integer (-1), .integer 1]) := by
  have hp : entryPayload [.integer (-1)] 1 = .ok [2, 1, 1, 255, 1] := by decide +kernel
  have hq : entryPayload [.integer 1] 2 = .ok [2, 1, 1, 1, 2] := by decide +kernel
  have hlt : Value.compare (.integer (-1)) (.integer 1) = .lt := by decide
  have hge : ¬ ([2, 1, 1, 255, 1] : Bytes) < [2, 1, 1, 1, 2] := by decide
  exact ⟨hlt, hp, hq, hge, fun h => hge (h.payloads _ _ (by simp) (by simp) hlt 1 2 _ _ hp hq)⟩

end Sqllite
