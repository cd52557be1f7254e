import Sqllite.L2Storage.Btree
import Sqllite.L2Storage.LeafPages

/-!
# Index entries (`storage/btree.rs`)

`insert_index` stores the record of a key with the varint of the row id behind it.
`split_index_payload` has no length to go by: it tries the boundaries from the right
and takes the first one with a record in front of it, whatever follows the record.

* `splitIndexPayload_concat`: the boundary in front of the last byte is always taken.
* `entrySurvives_iff`: so a row id of more than one byte does not come back.
-/
namespace Sqllite
open Lib.Run Lib.Span

/-! ## The boundary -/

/-- The last byte of a varint is the lowest digit; below 128 it is the only one. -/
theorem writeVarint_last {v : Nat} {bs : Bytes} (h : writeVarint v = .ok bs) :
    ∃ init, bs = init ++ [UInt8.ofNat (v % 128)] ∧ (init = [] ↔ v < 128) := by
  unfold writeVarint at h
  by_cases h0 : v = 0
  · rw [if_pos h0] at h
    cases h
    exact ⟨[], by rw [h0]; rfl, by simp [h0]⟩
  · rw [if_neg h0] at h
    dsimp only at h
    split at h
    · cases h
      have hdigits : digits128 10 v = v % 128 :: digits128 9 (v / 128) := by
        rw [digits128, if_neg h0]
      refine ⟨(digits128 9 (v / 128)).reverse.map fun d => UInt8.ofNat d ||| 0x80, ?_, ?_⟩
      · rw [hdigits, List.reverse_cons, varintBytes_concat]
      · rw [List.map_eq_nil_iff, List.reverse_eq_nil_iff, digits128]
        split <;> simp <;> omega
    · cases h

theorem readVarint_byte {data : Bytes} {k d : Nat} (hd : d < 128)
    (hat : At data k [UInt8.ofNat d]) : readVarint data k = .ok (d, 1) := by
  have hlt := hat.le (by simp)
  have hstep := readVarintGo_step (n := 7) (i := 0) rfl (At.singleton.mp hat) 0
  rw [ofNat_digit hd, if_pos hd, Nat.mod_eq_of_lt hd, Nat.zero_mul, Nat.zero_add] at hstep
  rw [List.length_singleton] at hlt
  rw [readVarint, if_neg (by omega)]
  exact hstep

/-- The boundary in front of the last byte is tried first. -/
theorem splitIndexPayload_concat {front : Bytes} {len d : Nat} (hne : front ≠ [])
    (hrec : recordByteLength front = .ok len) (hd : d < 128) :
    splitIndexPayload (front ++ [UInt8.ofNat d]) = .ok (front, d) := by
  obtain ⟨k, hk⟩ : ∃ k, front.length = k + 1 :=
    ⟨front.length - 1, by have := List.length_pos_iff.mpr hne; omega⟩
  have htake : (front ++ [UInt8.ofNat d]).take (k + 1) = front := by
    rw [← hk, List.take_left]
  have hread : readVarint (front ++ [UInt8.ofNat d]) (k + 1) = .ok (d, 1) := by
    refine readVarint_byte hd ?_
    rw [← hk]
    exact At.middle front [UInt8.ofNat d] []
  have hsigned : asI64 d = d := by
    unfold asI64
    rw [if_pos (by omega)]
  rw [splitIndexPayload, List.length_append, List.length_singleton, Nat.add_sub_cancel, hk,
    splitIndexPayloadGo, htake, hrec]
  dsimp only
  rw [hread, Res.ok_bind, if_pos (by rw [List.length_append, List.length_singleton]; omega), hsigned]
  rfl

/-! ## An entry -/

/-- The entry of a key and a row id comes back from the bytes it is stored in, and from
its cell, wherever that stands. -/
def EntrySurvives (key : Bytes) (rowid : Int) : Prop :=
  ∃ n cell, writeVarint (asU64 rowid) = .ok n ∧ buildIndexCell (key ++ n) = .ok cell ∧
    splitIndexPayload (key ++ n) = .ok (key, rowid) ∧
    ∀ front rest, (front ++ (cell ++ rest)).length < 2 ^ 64 →
      BtreeCursor.readEntry indexFlags (front ++ (cell ++ rest)) front.length = .ok (rowid, key)

theorem readEntry_index {payload cell : Bytes} (hb : buildIndexCell payload = .ok cell)
    (hlen : payload.length < 2 ^ 56) {front rest : Bytes}
    (hsize : (front ++ (cell ++ rest)).length < 2 ^ 64) :
    BtreeCursor.readEntry indexFlags (front ++ (cell ++ rest)) front.length =
      (splitIndexPayload payload >>= fun (key, rowid) => pure (rowid, key)) := by
  obtain ⟨n, hn, hb⟩ := Res.bind_eq_ok.mp hb
  cases hb
  have hat : At (front ++ ((n ++ payload) ++ rest)) front.length (n ++ payload) :=
    At.middle front (n ++ payload) rest
  obtain ⟨hvar, hpay⟩ := At.append.mp hat
  simp only [List.length_append] at hsize
  have hread : readIndexPayload (front ++ ((n ++ payload) ++ rest)) front.length = .ok payload := by
    rw [readIndexPayload, readVarint_writeVarint hlen hn hvar, Res.ok_bind]
    dsimp only
    rw [usizeAdd, if_pos (by omega), Res.ok_bind,
      if_neg (by simp only [List.length_append]; omega),
      slice_at hpay (by simp only [List.length_append]; omega) rfl]
  unfold BtreeCursor.readEntry
  rw [if_pos (show indexFlags.blobkey = true from rfl), hread, Res.ok_bind]

/-- An entry comes back exactly if its row id takes one byte. -/
theorem entrySurvives_iff {values : List Value} {rowid : Int} {key : Bytes}
    (hlen : values.length < 2 ^ 50) (hsized : ∀ v ∈ values, v.Sized)
    (hkey : encodeRecord values = .ok key) (hshort : key.length < 2 ^ 50) (h0 : 0 ≤ rowid)
    (h56 : rowid < 2 ^ 56) : EntrySurvives key rowid ↔ rowid < 128 := by
  have hrecord : ∀ t, recordByteLength (key ++ t) = .ok key.length := by
    intro t
    obtain ⟨enc, henc, -, hrec⟩ := decodeRecord_encodeRecord values t hlen hsized
    cases henc.symm.trans hkey
    exact hrec
  have hpos : key ≠ [] := by
    obtain ⟨count, -, h⟩ := Res.bind_eq_ok.mp hkey
    obtain ⟨cols, -, h⟩ := Res.bind_eq_ok.mp h
    obtain ⟨len, hlen', h⟩ := Res.bind_eq_ok.mp h
    cases h
    have := writeVarint_length_pos hlen'
    intro hnil
    simp only [List.append_eq_nil_iff] at hnil
    rw [hnil.1.1] at this
    cases this
  have hu : asU64 rowid = rowid.toNat := asU64_of_nonneg h0 (by omega)
  obtain ⟨n, hn, -, hn8⟩ := writeVarint_ok (v := rowid.toNat) (by omega)
  obtain ⟨init, hinit, hone⟩ := writeVarint_last hn
  have hsplit : splitIndexPayload (key ++ n) = .ok (key ++ init, (rowid.toNat % 128 : Nat)) := by
    rw [hinit, ← List.append_assoc]
    exact splitIndexPayload_concat (by simp [hpos]) (hrecord init) (Nat.mod_lt _ (by decide))
  rw [EntrySurvives, hu]
  constructor
  · intro h
    obtain ⟨n', cell, hn', -, hback, -⟩ := h
    cases hn.symm.trans hn'
    rw [hsplit] at hback
    have hkey' : key ++ init = key := congrArg Prod.fst (Except.ok.inj hback)
    have := hone.mp (List.append_right_eq_self.mp hkey')
    omega
  · intro h
    have hnil := hone.mpr (by omega)
    have hmod : ((rowid.toNat % 128 : Nat) : Int) = rowid := by omega
    rw [hnil, List.append_nil, hmod] at hsplit
    have hpayload : (key ++ n).length < 2 ^ 56 := by
      rw [List.length_append]
      omega
    obtain ⟨len, hw, -⟩ := writeVarint_ok hpayload
    have hcell : buildIndexCell (key ++ n) = .ok (len ++ (key ++ n)) := by
      rw [buildIndexCell, hw]
      rfl
    refine ⟨n, len ++ (key ++ n), hn, hcell, hsplit, fun front rest hsize => ?_⟩
    rw [readEntry_index hcell hpayload hsize, hsplit]
    rfl

theorem entrySurvives_iff_one : EntrySurvives [2, 1, 1, 10] 1 :=
  (entrySurvives_iff (show ([.integer 10] : List Value).length < 2 ^ 50 by decide) (by decide)
    (by decide) (by decide) (by decide) (by decide)).mpr (by decide)

/-- The entry of 10 and the row id 128 reads as a longer key and the row id 0. -/
theorem entrySurvives_fails : encodeRecord [.integer 10] = .ok [2, 1, 1, 10] ∧
    splitIndexPayload [2, 1, 1, 10, 129, 0] = .ok ([2, 1, 1, 10, 129], 0) ∧
    ¬ EntrySurvives [2, 1, 1, 10] 128 := by
  have hsplit : splitIndexPayload [2, 1, 1, 10, 129, 0] = .ok ([2, 1, 1, 10, 129], 0) := by
    decide +kernel
  refine ⟨by decide, hsplit, fun h => ?_⟩
  obtain ⟨n, cell, hn, -, hback, -⟩ := h
  have hbytes : writeVarint (asU64 128) = .ok [129, 0] := by decide +kernel
  cases hbytes.symm.trans hn
  exact absurd (hsplit.symm.trans hback) (by decide)

end Sqllite
