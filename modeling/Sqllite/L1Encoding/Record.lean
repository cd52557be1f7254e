import Mathlib.Tactic.IntervalCases
import Mathlib.Tactic.NormNum
import Mathlib.Tactic.Tauto
import Sqllite.L1Encoding.Varint

/-!
# Records (`record.rs`)

A record is a varint header length, a header (a varint column count, then one
varint serial type a column) and the column bodies one after another. Integers
are stored in the fewest of 1, 2, 3, 4, 6 or 8 little-endian bytes and
sign-extended on the way back; a text or blob of `n` bytes has serial type
`2n + 12` or `2n + 13`.

* `readInt_encode`: each integer width gives back every integer it is used for.
* `decodeSerial_encodeValue`: one column, at any offset of any body.
* `decodeRecord_encodeRecord`: a whole record, with any bytes behind it.
-/
namespace Sqllite
open Lib.Run Lib.Span

def SERIAL_NULL : Nat := 0
def SERIAL_INT8 : Nat := 1
def SERIAL_INT16 : Nat := 2
def SERIAL_INT24 : Nat := 3
def SERIAL_INT32 : Nat := 4
def SERIAL_INT48 : Nat := 5
def SERIAL_INT64 : Nat := 6
def SERIAL_FLOAT64 : Nat := 7
def SERIAL_TEXT_MIN : Nat := 12
def SERIAL_BLOB_MIN : Nat := 13

/-! ## Texts -/

/-- `s.as_bytes()`. -/
def asBytes (s : String) : Bytes := s.toByteArray.data.toList

/-- Length of the maximal ill-formed prefix that one U+FFFD stands for. -/
def invalidLen (bs : Bytes) : Nat :=
  let b (i : Nat) : Nat := ((bs[i]?).getD 0).toNat
  let cont (i : Nat) : Bool := decide (0x80 ≤ b i ∧ b i ≤ 0xbf)
  if 0xe0 ≤ b 0 ∧ b 0 ≤ 0xef then
    let lo := if b 0 = 0xe0 then 0xa0 else 0x80
    let hi := if b 0 = 0xed then 0x9f else 0xbf
    if lo ≤ b 1 ∧ b 1 ≤ hi then 2 else 1
  else if 0xf0 ≤ b 0 ∧ b 0 ≤ 0xf4 then
    let lo := if b 0 = 0xf0 then 0x90 else 0x80
    let hi := if b 0 = 0xf4 then 0x8f else 0xbf
    if lo ≤ b 1 ∧ b 1 ≤ hi then (if cont 2 then 3 else 2) else 1
  else 1

/-- The characters of `String::from_utf8_lossy`, at most `fuel` of them. -/
def lossyChars : Nat → Bytes → List Char
  | 0, _ => []
  | _ + 1, [] => []
  | fuel + 1, b :: bs =>
    match (b :: bs).toByteArray.utf8DecodeChar? 0 with
    | some c => c :: lossyChars fuel ((b :: bs).drop c.utf8Size)
    | none => '\uFFFD' :: lossyChars fuel ((b :: bs).drop (invalidLen (b :: bs)))

/-- `String::from_utf8_lossy(bs).into_owned()`. -/
def fromUtf8Lossy (bs : Bytes) : String := String.ofList (lossyChars bs.length bs)

/-! ## Encoding -/

/-- `i.to_le_bytes()`. -/
def toLeBytes (i : Int64) : Bytes := leBytes 8 i.toUInt64.toNat

/-- mirrors sqllite-core/src/record.rs:46-68 -/
def serialType (value : Value) : Nat :=
  match value with
  | .null => SERIAL_NULL
  | .integer i =>
    let i := i.toInt
    if i ≥ -2 ^ 7 ∧ i ≤ 2 ^ 7 - 1 then SERIAL_INT8
    else if i ≥ -2 ^ 15 ∧ i ≤ 2 ^ 15 - 1 then SERIAL_INT16
    else if i ≥ -2 ^ 23 ∧ i < 2 ^ 23 then SERIAL_INT24
    else if i ≥ -2 ^ 31 ∧ i ≤ 2 ^ 31 - 1 then SERIAL_INT32
    else if i ≥ -2 ^ 47 ∧ i < 2 ^ 47 then SERIAL_INT48
    else SERIAL_INT64
  | .real _ => SERIAL_FLOAT64
  | .text s => (asBytes s).length * 2 + SERIAL_TEXT_MIN
  | .blob b => b.length * 2 + SERIAL_BLOB_MIN

/-- Bytes an integer serial type keeps of the eight. -/
def intWidth (serial : Nat) : Nat :=
  if serial = SERIAL_INT8 then 1
  else if serial = SERIAL_INT16 then 2
  else if serial = SERIAL_INT24 then 3
  else if serial = SERIAL_INT32 then 4
  else if serial = SERIAL_INT48 then 6
  else 8

/-- mirrors sqllite-core/src/record.rs:70-87 -/
def encodeValue (value : Value) (serial : Nat) : Bytes :=
  match value with
  | .null => []
  | .integer i => (toLeBytes i).take (intWidth serial)
  | .real r => leBytes 8 r.toNat
  | .text s => asBytes s
  | .blob b => b

/-- The loop of `encode_record` over the values: what it appends to the header
and to the body. -/
def encodeColumns : List Value → Result (Bytes × Bytes)
  | [] => .ok ([], [])
  | v :: vs => do
    let st := serialType v
    let h ← writeVarint st
    let (hs, body) ← encodeColumns vs
    pure (h ++ hs, encodeValue v st ++ body)

/-- mirrors sqllite-core/src/record.rs:21-44 -/
def encodeRecord (values : List Value) : Result Bytes := do
  let count ← writeVarint values.length
  let (types, body) ← encodeColumns values
  let headerBuf := count ++ types
  let len ← writeVarint headerBuf.length
  pure (len ++ headerBuf ++ body)

/-! ## Decoding -/

/-- `Vec::with_capacity(n)` for elements of `size` bytes. -/
def withCapacity (n size : Nat) : Result Unit :=
  if n * size < 2 ^ 63 then .ok () else panicked

/-- mirrors sqllite-core/src/record.rs:178-192 -/
def readInt (data : Bytes) (offset nbytes : Nat) : Result Int64 :=
  if offset + nbytes > data.length then fail .corrupt "truncated integer"
  else do
    let bytes ← slice data offset (offset + nbytes)
    let top ← byteAt data (offset + nbytes - 1)
    let fill : UInt8 := if nbytes < 8 ∧ top &&& 0x80 ≠ 0 then 0xff else 0
    pure (UInt64.ofNat (ofLE (bytes ++ List.replicate (8 - nbytes) fill))).toInt64

/-- An integer column of `nbytes` bytes. -/
def decodeInt (data : Bytes) (offset nbytes : Nat) : Result (Value × Nat) := do
  let v ← readInt data offset nbytes
  pure (.integer v, nbytes)

/-- mirrors sqllite-core/src/record.rs:131-176 -/
def decodeSerial (serial : Nat) (data : Bytes) (offset : Nat) : Result (Value × Nat) :=
  if serial = SERIAL_NULL then .ok (.null, 0)
  else if serial = SERIAL_INT8 then decodeInt data offset 1
  else if serial = SERIAL_INT16 then decodeInt data offset 2
  else if serial = SERIAL_INT24 then decodeInt data offset 3
  else if serial = SERIAL_INT32 then decodeInt data offset 4
  else if serial = SERIAL_INT48 then decodeInt data offset 6
  else if serial = SERIAL_INT64 then decodeInt data offset 8
  else if serial = SERIAL_FLOAT64 then
    if offset + 8 > data.length then fail .corrupt "truncated float"
    else do
      let bytes ← slice data offset (offset + 8)
      pure (.real (UInt64.ofNat (ofLE bytes)), 8)
  else if serial ≥ SERIAL_TEXT_MIN ∧ serial % 2 = 0 then
    let len := (serial - SERIAL_TEXT_MIN) / 2
    if offset + len > data.length then fail .corrupt "truncated text"
    else do
      let bytes ← slice data offset (offset + len)
      pure (.text (fromUtf8Lossy bytes), len)
  else if serial ≥ SERIAL_BLOB_MIN ∧ serial % 2 = 1 then
    let len := (serial - SERIAL_BLOB_MIN) / 2
    if offset + len > data.length then fail .corrupt "truncated blob"
    else do
      let bytes ← slice data offset (offset + len)
      pure (.blob bytes, len)
  else fail .corrupt ("invalid serial type " ++ toString serial)

/-- `count` serial types from `offset` on. -/
def readSerials (data : Bytes) : Nat → Nat → Result (List Nat)
  | 0, _ => .ok []
  | count + 1, offset => do
    let (st, k) ← readVarint data offset
    let rest ← readSerials data count (offset + k)
    pure (st :: rest)

/-- The columns of the given serial types from `offset` on, and where they end. -/
def decodeColumns (body : Bytes) : List Nat → Nat → Result (List Value × Nat)
  | [], offset => .ok ([], offset)
  | st :: sts, offset => do
    let (value, consumed) ← decodeSerial st body offset
    let (values, stop) ← decodeColumns body sts (offset + consumed)
    pure (value :: values, stop)

/-- Header end and serial types, as `decode_record` and `record_byte_length`
both read them. -/
def readHeader (data : Bytes) : Result (Nat × List Nat) := do
  let (headerSize, n) ← readVarint data 0
  let headerEnd ← usizeAdd n headerSize
  if headerEnd > data.length then fail .corrupt "truncated record header"
  else do
    let (colCount, m) ← readVarint data n
    withCapacity colCount 8
    let serialTypes ← readSerials data colCount (n + m)
    pure (headerEnd, serialTypes)

/-- mirrors sqllite-core/src/record.rs:89-99 -/
def recordByteLength (data : Bytes) : Result Nat := do
  let (headerEnd, serialTypes) ← readHeader data
  let (_, stop) ← decodeColumns (data.drop headerEnd) serialTypes 0
  pure (headerEnd + stop)

/-- `size_of::<Value>()`. -/
def VALUE_SIZE : Nat := 32

/-- mirrors sqllite-core/src/record.rs:102-129 -/
def decodeRecord (data : Bytes) : Result (List Value) := do
  let (headerEnd, serialTypes) ← readHeader data
  withCapacity serialTypes.length VALUE_SIZE
  let (values, _) ← decodeColumns (data.drop headerEnd) serialTypes 0
  pure values

/-! ## Texts come back -/

theorem asBytes_eq (s : String) : asBytes s = s.toList.flatMap String.utf8EncodeChar := by
  conv_lhs => rw [← String.ofList_toList (s := s)]
  rw [asBytes, String.toByteArray_ofList, List.utf8Encode, List.toList_data_toByteArray]

theorem lossyChars_encode : ∀ (l : List Char) (fuel : Nat),
    (l.flatMap String.utf8EncodeChar).length ≤ fuel →
    lossyChars fuel (l.flatMap String.utf8EncodeChar) = l
  | [], fuel, _ => by cases fuel <;> rfl
  | c :: cs, fuel, h => by
    have hlen : (String.utf8EncodeChar c).length = c.utf8Size := String.length_utf8EncodeChar c
    have hpos := c.utf8Size_pos
    rw [List.flatMap_cons] at h ⊢
    simp only [List.length_append] at h
    obtain ⟨fuel, rfl⟩ : ∃ k, fuel = k + 1 := ⟨fuel - 1, by omega⟩
    have hdec : (String.utf8EncodeChar c ++
        cs.flatMap String.utf8EncodeChar).toByteArray.utf8DecodeChar? 0 = some c := by
      rw [List.toByteArray_append]; exact ByteArray.utf8DecodeChar?_utf8EncodeChar_append
    have hdrop : (String.utf8EncodeChar c ++ cs.flatMap String.utf8EncodeChar).drop c.utf8Size =
        cs.flatMap String.utf8EncodeChar := by rw [← hlen, List.drop_left]
    cases hb : String.utf8EncodeChar c ++ cs.flatMap String.utf8EncodeChar with
    | nil =>
      have := congrArg List.length hb
      simp only [List.length_append, List.length_nil] at this; omega
    | cons b bs =>
      rw [hb] at hdec hdrop
      simp only [lossyChars, hdec, hdrop]
      rw [lossyChars_encode cs fuel (by omega)]

theorem fromUtf8Lossy_asBytes (s : String) : fromUtf8Lossy (asBytes s) = s := by
  rw [fromUtf8Lossy, asBytes_eq, lossyChars_encode _ _ (Nat.le_refl _), String.ofList_toList]

/-! ## Integers come back -/

theorem toInt_cases (i : Int64) :
    (i.toInt = i.toUInt64.toNat ∧ i.toUInt64.toNat < 2 ^ 63) ∨
      (i.toInt = (i.toUInt64.toNat : Int) - 2 ^ 64 ∧ 2 ^ 63 ≤ i.toUInt64.toNat) := by
  have hn : i.toUInt64.toNat = i.toBitVec.toNat := rfl
  have hi : i.toInt = i.toBitVec.toInt := rfl
  rw [hn, hi, BitVec.toInt]
  split <;> omega

theorem ofLE_replicate_zero : ∀ k, ofLE (List.replicate k 0) = 0
  | 0 => rfl
  | k + 1 => by simp [List.replicate_succ, ofLE, ofLE_replicate_zero k]

theorem ofLE_replicate_ff : ∀ k, ofLE (List.replicate k 0xff) + 1 = 256 ^ k
  | 0 => rfl
  | k + 1 => by
    have ih := ofLE_replicate_ff k
    have hff : (0xff : UInt8).toNat = 255 := rfl
    simp only [List.replicate_succ, ofLE, hff, Nat.pow_succ]; omega

/-- The last of the low `w + 1` bytes. -/
theorem leBytes_last : ∀ (w n : Nat),
    (leBytes (w + 1) n)[w]? = some (UInt8.ofNat (n / 256 ^ w))
  | 0, n => by simp [leBytes]
  | w + 1, n => by
    rw [leBytes, List.getElem?_cons_succ, leBytes_last w, Nat.div_div_eq_div_mul, Nat.pow_succ,
      Nat.mul_comm 256]

/-- Sign extension of the low `w` bytes of an integer that fits in them. -/
theorem signExtend {w n : Nat} {i : Int} (h1 : 1 ≤ w) (h8 : w ≤ 8)
    (hlo : -(128 * 256 ^ (w - 1) : Nat) ≤ i) (hhi : i < (128 * 256 ^ (w - 1) : Nat))
    (hn : (i = n ∧ n < 2 ^ 63) ∨ (i = (n : Int) - 2 ^ 64 ∧ 2 ^ 63 ≤ n ∧ n < 2 ^ 64)) :
    (i < 0 ↔ 128 ≤ n / 256 ^ (w - 1) % 256) ∧
      n = n % 256 ^ w + 256 ^ w * (if i < 0 then 256 ^ (8 - w) - 1 else 0) := by
  interval_cases w <;> norm_num at hlo hhi ⊢ <;> (try split) <;> omega

/-- Each integer width gives back every integer that fits in it. -/
theorem readInt_encode {i : Int64} {w : Nat} (h1 : 1 ≤ w) (h8 : w ≤ 8)
    (hlo : -(128 * 256 ^ (w - 1) : Nat) ≤ i.toInt) (hhi : i.toInt < (128 * 256 ^ (w - 1) : Nat))
    {body : Bytes} {offset : Nat} (hat : At body offset ((toLeBytes i).take w)) :
    readInt body offset w = .ok i := by
  rw [toLeBytes, leBytes_take w 8 _ h8] at hat
  have hne : leBytes w i.toUInt64.toNat ≠ [] := by
    rw [← List.length_pos_iff, leBytes_length]; omega
  have hle := hat.le hne
  rw [leBytes_length] at hle
  obtain ⟨v, rfl⟩ : ∃ v, w = v + 1 := ⟨w - 1, by omega⟩
  have hs := signExtend (n := i.toUInt64.toNat) h1 h8 hlo hhi (by
    have := toInt_cases i
    have := i.toUInt64.toNat_lt
    omega)
  have htop := hat v (by rw [leBytes_length]; omega)
  rw [leBytes_last] at htop
  simp only [Nat.add_sub_cancel] at hs
  have hbit : UInt8.ofNat (i.toUInt64.toNat / 256 ^ v) &&& 0x80 ≠ 0 ↔ i.toInt < 0 := by
    have ht : (UInt8.ofNat (i.toUInt64.toNat / 256 ^ v)).toNat =
        i.toUInt64.toNat / 256 ^ v % 256 := UInt8.toNat_ofNat'
    rw [ne_eq, cont_clear, hs.1, ht, Nat.not_lt]
  rw [readInt, if_neg (by omega), slice_at hat (by rw [leBytes_length]; omega) (by simp),
    byteAt_at (by rw [show offset + (v + 1) - 1 = offset + v by omega]; exact htop)]
  simp only [Res.ok_bind, Res.pure_eq, hbit]
  have hx : ofLE (leBytes (v + 1) i.toUInt64.toNat ++ List.replicate (8 - (v + 1))
      (if v + 1 < 8 ∧ i.toInt < 0 then (0xff : UInt8) else 0)) = i.toUInt64.toNat := by
    rw [ofLE_append, ofLE_leBytes, leBytes_length]
    conv_rhs => rw [hs.2]
    congr 2
    by_cases h0 : i.toInt < 0
    · rw [if_pos h0]
      by_cases h7 : v + 1 < 8
      · rw [if_pos ⟨h7, h0⟩]; have := ofLE_replicate_ff (8 - (v + 1)); omega
      · rw [show 8 - (v + 1) = 0 by omega]; rfl
    · rw [if_neg h0, if_neg (by tauto), ofLE_replicate_zero]
  rw [hx, UInt64.ofNat_toNat]
  rfl

/-! ## Columns come back -/

/-- A text or blob of fewer than 2^50 bytes. -/
def Value.Sized : Value → Prop
  | .text s => (asBytes s).length < 2 ^ 50
  | .blob b => b.length < 2 ^ 50
  | _ => True

instance (v : Value) : Decidable v.Sized := by
  cases v <;> unfold Value.Sized <;> infer_instance

theorem serialType_lt {v : Value} (h : v.Sized) : serialType v < 2 ^ 56 := by
  cases v with
  | null => decide
  | integer i =>
    simp only [serialType]
    repeat' split
    all_goals decide
  | real r => simp [serialType, SERIAL_FLOAT64]
  | text s => simp only [serialType, Value.Sized, SERIAL_TEXT_MIN] at h ⊢; omega
  | blob b => simp only [serialType, Value.Sized, SERIAL_BLOB_MIN] at h ⊢; omega

theorem decodeInt_encode {i : Int64} {w : Nat} (h1 : 1 ≤ w) (h8 : w ≤ 8)
    (hlo : -(128 * 256 ^ (w - 1) : Nat) ≤ i.toInt) (hhi : i.toInt < (128 * 256 ^ (w - 1) : Nat))
    {body : Bytes} {offset : Nat} (hat : At body offset ((toLeBytes i).take w)) :
    decodeInt body offset w = .ok (.integer i, ((toLeBytes i).take w).length) := by
  rw [decodeInt, readInt_encode h1 h8 hlo hhi hat]
  simp [toLeBytes]; omega

/-- The serial type of an integer names a width the integer fits in. -/
theorem serialType_integer (i : Int64) : ∃ w, 1 ≤ w ∧ w ≤ 8 ∧
    intWidth (serialType (.integer i)) = w ∧ -(128 * 256 ^ (w - 1) : Nat) ≤ i.toInt ∧
    i.toInt < (128 * 256 ^ (w - 1) : Nat) ∧ ∀ body offset,
      decodeSerial (serialType (.integer i)) body offset = decodeInt body offset w := by
  have hlt := i.toUInt64.toNat_lt
  have hcases := toInt_cases i
  simp only [serialType]
  split; · exact ⟨1, by decide, by decide, rfl, by norm_num; omega, by norm_num; omega, fun _ _ => rfl⟩
  split; · exact ⟨2, by decide, by decide, rfl, by norm_num; omega, by norm_num; omega, fun _ _ => rfl⟩
  split; · exact ⟨3, by decide, by decide, rfl, by norm_num; omega, by norm_num; omega, fun _ _ => rfl⟩
  split; · exact ⟨4, by decide, by decide, rfl, by norm_num; omega, by norm_num; omega, fun _ _ => rfl⟩
  split; · exact ⟨6, by decide, by decide, rfl, by norm_num; omega, by norm_num; omega, fun _ _ => rfl⟩
  exact ⟨8, by decide, by decide, rfl, by norm_num; omega, by norm_num; omega, fun _ _ => rfl⟩

theorem decodeSerial_text {n : Nat} (bs : Bytes) {body : Bytes} {offset : Nat} (hn : bs.length = n)
    (hat : At body offset bs) (hle : offset + n ≤ body.length) :
    decodeSerial (n * 2 + SERIAL_TEXT_MIN) body offset = .ok (.text (fromUtf8Lossy bs), n) := by
  have hlen : (n * 2 + 12 - 12) / 2 = n := by omega
  simp only [decodeSerial, SERIAL_NULL, SERIAL_INT8, SERIAL_INT16, SERIAL_INT24, SERIAL_INT32,
    SERIAL_INT48, SERIAL_INT64, SERIAL_FLOAT64, SERIAL_TEXT_MIN, hlen]
  repeat rw [if_neg (by omega)]
  rw [if_pos (by omega), if_neg (by omega), slice_at hat (by omega) (by omega)]
  rfl

theorem decodeSerial_blob {n : Nat} {bs body : Bytes} {offset : Nat} (hn : bs.length = n)
    (hat : At body offset bs) (hle : offset + n ≤ body.length) :
    decodeSerial (n * 2 + SERIAL_BLOB_MIN) body offset = .ok (.blob bs, n) := by
  have hlen : (n * 2 + 13 - 13) / 2 = n := by omega
  simp only [decodeSerial, SERIAL_NULL, SERIAL_INT8, SERIAL_INT16, SERIAL_INT24, SERIAL_INT32,
    SERIAL_INT48, SERIAL_INT64, SERIAL_FLOAT64, SERIAL_TEXT_MIN, SERIAL_BLOB_MIN, hlen]
  repeat rw [if_neg (by omega)]
  rw [if_pos (by omega), if_neg (by omega), slice_at hat (by omega) (by omega)]
  rfl

theorem decodeSerial_real {r : UInt64} {body : Bytes} {offset : Nat}
    (hat : At body offset (leBytes 8 r.toNat)) :
    decodeSerial SERIAL_FLOAT64 body offset = .ok (.real r, 8) := by
  have hle := hat.le (by simp [leBytes])
  rw [leBytes_length] at hle
  have hgoal : decodeSerial SERIAL_FLOAT64 body offset =
      if offset + 8 > body.length then fail .corrupt "truncated float"
      else slice body offset (offset + 8) >>= fun bs => pure (.real (UInt64.ofNat (ofLE bs)), 8) := rfl
  rw [hgoal, if_neg (by omega), slice_at hat (by simpa using hle) (by simp)]
  simp [ofLE_leBytes]

/-- One column, at any offset of any body. -/
theorem decodeSerial_encodeValue (v : Value) {body : Bytes} {offset : Nat}
    (hat : At body offset (encodeValue v (serialType v)))
    (hle : offset + (encodeValue v (serialType v)).length ≤ body.length) :
    decodeSerial (serialType v) body offset =
      .ok (v, (encodeValue v (serialType v)).length) := by
  cases v with
  | null => rfl
  | integer i =>
    obtain ⟨w, h1, h8, hw, hlo, hhi, hdec⟩ := serialType_integer i
    simp only [encodeValue, hw, hdec] at hat ⊢
    exact decodeInt_encode h1 h8 hlo hhi hat
  | real r =>
    have hlen : (encodeValue (.real r) SERIAL_FLOAT64).length = 8 := leBytes_length 8 _
    rw [show serialType (.real r) = SERIAL_FLOAT64 from rfl, hlen]
    exact decodeSerial_real hat
  | text s =>
    have h := decodeSerial_text (asBytes s) rfl hat hle
    rw [fromUtf8Lossy_asBytes] at h
    exact h
  | blob b => exact decodeSerial_blob rfl hat hle

/-! ## Records come back -/

/-- The header bytes and the body bytes of the columns are read back in step. -/
theorem encodeColumns_spec (vs : List Value) (h : ∀ v ∈ vs, v.Sized) :
    ∃ types body, encodeColumns vs = .ok (types, body) ∧
      types.length ≤ 8 * vs.length ∧
      (∀ data offset, At data offset types →
        readSerials data vs.length offset = .ok (vs.map serialType)) ∧
      ∀ data offset, At data offset body → offset + body.length ≤ data.length →
        decodeColumns data (vs.map serialType) offset = .ok (vs, offset + body.length) := by
  induction vs with
  | nil => exact ⟨[], [], rfl, by simp, fun _ _ _ => rfl, fun _ _ _ _ => rfl⟩
  | cons v vs ih =>
    obtain ⟨types, body, henc, hlen, hser, hdec⟩ := ih fun u hu => h u (List.mem_cons_of_mem _ hu)
    obtain ⟨hd, hw, _, hd8⟩ := writeVarint_ok (serialType_lt (h v List.mem_cons_self))
    refine ⟨hd ++ types, encodeValue v (serialType v) ++ body, ?_, ?_, ?_, ?_⟩
    · simp [encodeColumns, hw, henc]
    · simp only [List.length_append, List.length_cons]; omega
    · intro data offset hat
      obtain ⟨h1, h2⟩ := At.append.mp hat
      simp [readSerials, readVarint_writeVarint (serialType_lt (h v List.mem_cons_self)) hw h1,
        hser _ _ h2]
    · intro data offset hat hle
      obtain ⟨h1, h2⟩ := At.append.mp hat
      simp only [List.length_append] at hle ⊢
      simp [decodeColumns, decodeSerial_encodeValue v h1 (by omega), hdec _ _ h2 (by omega),
        Nat.add_assoc]

theorem readHeader_encodeRecord {n : Nat} {vs : List Value} (hn : vs.length = n)
    (hlt : n < 2 ^ 50) {types count len t : Bytes} (hlen : types.length ≤ 8 * n)
    (hser : ∀ data offset, At data offset types →
      readSerials data n offset = .ok (vs.map serialType))
    (hcount : writeVarint n = .ok count)
    (hw : writeVarint (count ++ types).length = .ok len) (hc : count.length ≤ 8) :
    readHeader (len ++ (count ++ types) ++ t) =
      .ok ((len ++ (count ++ types)).length, vs.map serialType) := by
  have hhl : (count ++ types).length < 2 ^ 56 := by simp only [List.length_append]; omega
  obtain ⟨l, hl, hl1, hl8⟩ := writeVarint_ok hhl
  obtain rfl : len = l := by rw [hl] at hw; cases hw; rfl
  have hat : At (len ++ (count ++ types) ++ t) 0 (len ++ (count ++ types)) :=
    At.of_take (by rw [List.drop_zero, List.take_left])
  obtain ⟨h1, h23⟩ := At.append.mp hat
  obtain ⟨h2, h3⟩ := At.append.mp h23
  rw [Nat.zero_add] at h2 h3
  simp only [List.length_append] at hhl
  rw [readHeader, readVarint_writeVarint (by simpa using hhl) hw h1, Res.ok_bind]
  simp only [usizeAdd]
  rw [if_pos (by simp only [List.length_append]; omega), Res.ok_bind,
    if_neg (by simp only [List.length_append]; omega),
    readVarint_writeVarint (by omega) hcount h2, Res.ok_bind]
  simp only [withCapacity]
  rw [if_pos (by omega), Res.ok_bind, hser _ _ h3]
  simp

/-- A record decodes to the values it encodes, and its length is recovered,
whatever bytes stand behind it. -/
theorem decodeRecord_encodeRecord (values : List Value) (t : Bytes)
    (hlen : values.length < 2 ^ 50) (hsized : ∀ v ∈ values, v.Sized) :
    ∃ enc, encodeRecord values = .ok enc ∧
      decodeRecord (enc ++ t) = .ok values ∧
      recordByteLength (enc ++ t) = .ok enc.length := by
  obtain ⟨types, body, henc, htl, hser, hdec⟩ := encodeColumns_spec values hsized
  obtain ⟨count, hcount, _, hc8⟩ := writeVarint_ok (v := values.length) (by omega)
  obtain ⟨len, hw, _, _⟩ := writeVarint_ok (v := (count ++ types).length)
    (by simp only [List.length_append]; omega)
  have hh := readHeader_encodeRecord (t := body ++ t) rfl hlen htl hser hcount hw hc8
  have hdrop : (len ++ (count ++ types) ++ (body ++ t)).drop (len ++ (count ++ types)).length =
      body ++ t := List.drop_left
  have hcols := hdec (body ++ t) 0 (At.of_take (by rw [List.drop_zero, List.take_left]))
    (by simp only [List.length_append]; omega)
  have happ : len ++ (count ++ types) ++ body ++ t = len ++ (count ++ types) ++ (body ++ t) := by
    simp only [List.append_assoc]
  refine ⟨len ++ (count ++ types) ++ body, ?_, ?_, ?_⟩
  · rw [encodeRecord, hcount, Res.ok_bind, henc, Res.ok_bind]
    simp only [hw]
    rfl
  · rw [happ, decodeRecord, hh, Res.ok_bind]
    simp only [withCapacity, VALUE_SIZE, List.length_map]
    rw [if_pos (by omega), Res.ok_bind, hdrop, hcols]
    rfl
  · rw [happ, recordByteLength, hh, Res.ok_bind]
    simp only [hdrop, hcols]
    simp [Nat.add_assoc]

/-- NULL, integers on both sides of a width boundary, a real, a text, a blob. -/
theorem decodeRecord_encodeRecord_mixed :
    ∃ enc, encodeRecord [.null, .integer (-129), .integer 127, .real 4614253070214989087,
        .text "héllo", .blob [0, 255]] = .ok enc ∧
      decodeRecord (enc ++ [7, 7]) = .ok [.null, .integer (-129), .integer 127,
        .real 4614253070214989087, .text "héllo", .blob [0, 255]] ∧
      recordByteLength (enc ++ [7, 7]) = .ok enc.length :=
  decodeRecord_encodeRecord _ [7, 7] (by decide) (by decide +kernel)

end Sqllite
