import Sqllite.L1Encoding.Types

/-!
# Variable-length integers (`varint.rs`)

`write_varint` emits the base-128 digits of a `u64`, most significant first,
with the continuation bit on every byte but the last; its scratch array has
nine entries, so a value of 2^63 or more indexes past it. `read_varint` takes
seven bits from each of the first eight bytes and all eight of a ninth.

* `writeVarint_ok`: below 2^56 the writer emits 1..8 bytes.
* `readVarint_writeVarint`: below 2^56 the reader gives the value back,
  wherever the bytes stand and whatever follows them.
* `varintSurvives_iff`: from 2^56 on it does not.
* `signedSurvives_iff`: a signed value comes back from -2^55 up to 2^55.
-/
namespace Sqllite
open Lib.Run Lib.Span

def MAX_VARINT_LEN : Nat := 9

/-- The loop of `read_varint`: `n` bytes left of the nine, `result` so far.
mirrors sqllite-core/src/varint.rs:17-34 -/
def readVarintGo (data : Bytes) (offset : Nat) : Nat → Nat → Result (Nat × Nat)
  | 0, _ => panicked
  | n + 1, result =>
    let i := MAX_VARINT_LEN - (n + 1)
    match data[offset + i]? with
    | none => fail .corrupt "truncated varint"
    | some byte =>
      if n = 0 then .ok (result * 256 + byte.toNat, MAX_VARINT_LEN)
      else
        let result := result * 128 + (byte &&& 0x7f).toNat
        if byte &&& 0x80 = 0 then .ok (result, i + 1) else readVarintGo data offset n result

/-- mirrors sqllite-core/src/varint.rs:9-36 -/
def readVarint (data : Bytes) (offset : Nat) : Result (Nat × Nat) :=
  if offset ≥ data.length then fail .corrupt "truncated varint"
  else readVarintGo data offset MAX_VARINT_LEN 0

/-- Base-128 digits, least significant first, as `tmp` collects them (ten hold
any `u64`). -/
def digits128 : Nat → Nat → List Nat
  | 0, _ => []
  | fuel + 1, v => if v = 0 then [] else v % 128 :: digits128 fuel (v / 128)

/-- Digits, most significant first, with the continuation bits. -/
def varintBytes : List Nat → Bytes
  | [] => []
  | [d] => [UInt8.ofNat d]
  | d :: ds => (UInt8.ofNat d ||| 0x80) :: varintBytes ds

/-- The bytes `write_varint` puts into a nine-byte buffer.
mirrors sqllite-core/src/varint.rs:39-58 -/
def writeVarint (value : Nat) : Result Bytes :=
  if value = 0 then .ok [0]
  else
    let tmp := digits128 10 value
    if tmp.length ≤ MAX_VARINT_LEN then .ok (varintBytes tmp.reverse) else panicked

/-- mirrors sqllite-core/src/varint.rs:74-82 -/
def readSignedVarint (data : Bytes) (offset : Nat) : Result (Int64 × Nat) := do
  let (uv, n) ← readVarint data offset
  let v := if uv &&& 1 = 1 then -asI64 (uv / 2) - 1 else asI64 (uv / 2)
  pure (Int64.ofInt v, n)

/-- The negation overflows for the least `i64`.
mirrors sqllite-core/src/varint.rs:85-92 -/
def writeSignedVarint (value : Int64) : Result Bytes :=
  if value < 0 then
    if value = Int64.minValue then panicked
    else writeVarint (asU64 (-value.toInt - 1) * 2 % 2 ^ 64 ||| 1)
  else writeVarint (asU64 value.toInt * 2 % 2 ^ 64)

/-! ## Digits -/

theorem digits128_lt : ∀ (fuel v : Nat), ∀ d ∈ digits128 fuel v, d < 128
  | 0, _, d, h => by simp [digits128] at h
  | fuel + 1, v, d, h => by
    rw [digits128] at h
    split at h
    · simp at h
    · rcases List.mem_cons.mp h with rfl | h
      · omega
      · exact digits128_lt fuel _ d h

theorem digits128_length : ∀ (k fuel v : Nat), v < 128 ^ k → (digits128 fuel v).length ≤ k
  | 0, fuel, v, h => by
    have : v = 0 := by simpa using h
    cases fuel <;> simp [digits128, this]
  | k + 1, 0, v, _ => by simp [digits128]
  | k + 1, fuel + 1, v, h => by
    rw [digits128]; split
    · simp
    · have := digits128_length k fuel (v / 128) (by rw [Nat.pow_succ] at h; omega)
      simp only [List.length_cons]; omega

theorem lt_digits128_length : ∀ (k fuel v : Nat), 128 ^ k ≤ v → k < fuel →
    k < (digits128 fuel v).length
  | _, 0, _, _, h => absurd h (Nat.not_lt_zero _)
  | 0, fuel + 1, v, h, _ => by
    rw [digits128, if_neg (by simp only [Nat.pow_zero] at h; omega), List.length_cons]
    omega
  | k + 1, fuel + 1, v, h, hf => by
    have hpow : 128 ^ (k + 1) = 128 ^ k * 128 := Nat.pow_succ 128 k
    have hpos : 0 < 128 ^ k := Nat.pow_pos (by decide)
    have := lt_digits128_length k fuel (v / 128) (by omega) (by omega)
    rw [digits128, if_neg (by omega), List.length_cons]
    omega

theorem digits128_ne_nil {fuel v : Nat} (hv : v ≠ 0) : digits128 (fuel + 1) v ≠ [] := by
  simp [digits128, hv]

/-- The value of a digit list, most significant first, behind `acc`. -/
def ofDigits128 (acc : Nat) (ds : List Nat) : Nat := ds.foldl (fun a d => a * 128 + d) acc

theorem ofDigits128_digits : ∀ (fuel v : Nat), v < 128 ^ fuel →
    ofDigits128 0 (digits128 fuel v).reverse = v
  | 0, v, h => by
    have : v = 0 := by simpa using h
    simp [digits128, ofDigits128, this]
  | fuel + 1, v, h => by
    rw [digits128]; split
    · next h0 => simp [ofDigits128, h0]
    · have ih := ofDigits128_digits fuel (v / 128) (by rw [Nat.pow_succ] at h; omega)
      unfold ofDigits128 at ih ⊢
      rw [List.reverse_cons, List.foldl_append, ih]
      simp only [List.foldl_cons, List.foldl_nil]; omega

/-! ## Bytes -/

@[simp] theorem varintBytes_length : ∀ ds : List Nat, (varintBytes ds).length = ds.length
  | [] => rfl
  | [_] => rfl
  | _ :: d :: ds => by
    have := varintBytes_length (d :: ds)
    simp only [varintBytes, List.length_cons] at this ⊢; omega

theorem and_bits (n : Nat) (h : n < 256) :
    n &&& 0x7f = n % 128 ∧ (n &&& 0x80 = 0 ↔ n < 128) := by
  have := (by decide +kernel : ∀ i : Fin 256,
    i.val &&& 0x7f = i.val % 128 ∧ (i.val &&& 0x80 = 0 ↔ i.val < 128))
  exact this ⟨n, h⟩

theorem low7 (b : UInt8) : (b &&& 0x7f).toNat = b.toNat % 128 := by
  rw [UInt8.toNat_and]; exact (and_bits _ b.toNat_lt).1

theorem cont_clear (b : UInt8) : b &&& 0x80 = 0 ↔ b.toNat < 128 := by
  rw [← (and_bits _ b.toNat_lt).2, ← UInt8.toNat_inj, UInt8.toNat_and]; rfl

theorem or80_toNat {d : Nat} (h : d < 128) : (UInt8.ofNat d ||| 0x80).toNat = d + 128 := by
  have := (by decide +kernel : ∀ i : Fin 128, (UInt8.ofNat i.val ||| 0x80).toNat = i.val + 128)
  exact this ⟨d, h⟩

/-- One step of the reader on a byte that is not the ninth. -/
theorem readVarintGo_step {data : Bytes} {offset n i : Nat} (hi : n + 1 + i = 8) {b : UInt8}
    (hb : data[offset + i]? = some b) (result : Nat) :
    readVarintGo data offset (n + 2) result =
      if b.toNat < 128 then .ok (result * 128 + b.toNat % 128, i + 1)
      else readVarintGo data offset (n + 1) (result * 128 + b.toNat % 128) := by
  have he : MAX_VARINT_LEN - (n + 1 + 1) = i := by simp [MAX_VARINT_LEN]; omega
  conv_lhs => unfold readVarintGo
  simp only [he, hb, low7, cont_clear, Nat.add_eq_zero_iff, one_ne_zero, and_false, if_false]

/-- The reader on the ninth byte. -/
theorem readVarintGo_ninth {data : Bytes} {offset : Nat} {b : UInt8}
    (hb : data[offset + 8]? = some b) (result : Nat) :
    readVarintGo data offset 1 result = .ok (result * 256 + b.toNat, 9) := by
  unfold readVarintGo
  simp only [MAX_VARINT_LEN, Nat.zero_add, Nat.reduceSub, hb, if_true]

theorem varintBytes_concat (d : Nat) : ∀ ds : List Nat, varintBytes (ds ++ [d]) =
    ds.map (fun d => UInt8.ofNat d ||| 0x80) ++ [UInt8.ofNat d]
  | [] => rfl
  | [e] => rfl
  | e :: f :: ds => by
    have ih := varintBytes_concat d (f :: ds)
    simp only [List.cons_append, List.map_cons, varintBytes] at ih ⊢
    rw [ih]

/-- The reader on digits in front of others: induction on these digits. -/
theorem readVarintGo_more (data : Bytes) (offset : Nat) : ∀ (ds : List Nat) (i result : Nat),
    (∀ d ∈ ds, d < 128) → i + ds.length ≤ 8 →
    At data (offset + i) (ds.map fun d => UInt8.ofNat d ||| 0x80) →
    readVarintGo data offset (9 - i) result =
      readVarintGo data offset (9 - (i + ds.length)) (ofDigits128 result ds)
  | [], _, _, _, _, _ => rfl
  | d :: ds, i, result, hd, hl, hat => by
    have hlt := hd d List.mem_cons_self
    obtain ⟨hb, hrest⟩ := At.cons.mp hat
    simp only [List.length_cons] at hl ⊢
    obtain ⟨n, hn⟩ : ∃ n, 9 - i = n + 2 := ⟨7 - i, by omega⟩
    have hmod : (d + 128) % 128 = d := by omega
    have ih := readVarintGo_more data offset ds (i + 1) (result * 128 + d)
      (fun x hx => hd x (List.mem_cons_of_mem _ hx)) (by omega) hrest
    rw [hn, readVarintGo_step (by omega) hb, or80_toNat hlt, if_neg (by omega), hmod,
      show n + 1 = 9 - (i + 1) by omega, ih, show i + 1 + ds.length = i + (ds.length + 1) by omega]
    rfl

theorem ofNat_digit {d : Nat} (h : d < 128) : (UInt8.ofNat d).toNat = d := by
  have : (UInt8.ofNat d).toNat = d % 256 := UInt8.toNat_ofNat'
  omega

/-- The reader on at most eight digits. -/
theorem readVarintGo_digits {data : Bytes} {offset : Nat} {ds : List Nat} (hne : ds ≠ [])
    (hd : ∀ d ∈ ds, d < 128) (hl : ds.length ≤ 8) (hat : At data offset (varintBytes ds)) :
    readVarintGo data offset 9 0 = .ok (ofDigits128 0 ds, ds.length) := by
  obtain ⟨init, last, rfl⟩ := (List.eq_nil_or_concat' ds).resolve_left hne
  rw [varintBytes_concat] at hat
  obtain ⟨h1, h2⟩ := At.append.mp hat
  rw [List.length_map] at h2
  rw [List.length_append, List.length_singleton] at hl ⊢
  have hlast := hd last (List.mem_append_right _ (List.mem_singleton_self _))
  have hmore := readVarintGo_more data offset init 0 0
    (fun d hd' => hd d (List.mem_append_left _ hd')) (by omega) h1
  obtain ⟨n, hn⟩ : ∃ n, 9 - (0 + init.length) = n + 2 := ⟨7 - init.length, by omega⟩
  rw [hn] at hmore
  refine hmore.trans ?_
  rw [readVarintGo_step (by omega) (At.cons.mp h2).1, ofNat_digit hlast, if_pos hlast,
    Nat.mod_eq_of_lt hlast, ofDigits128, ofDigits128, List.foldl_append]
  rfl

/-- The reader on nine digits: the last one counts as eight bits. -/
theorem readVarintGo_nine {data : Bytes} {offset last : Nat} {init : List Nat}
    (hd : ∀ d ∈ init ++ [last], d < 128) (hl : init.length = 8)
    (hat : At data offset (varintBytes (init ++ [last]))) :
    readVarintGo data offset 9 0 = .ok (ofDigits128 0 init * 256 + last, 9) := by
  rw [varintBytes_concat] at hat
  obtain ⟨h1, h2⟩ := At.append.mp hat
  rw [List.length_map, hl] at h2
  have hmore := readVarintGo_more data offset init 0 0
    (fun d hd' => hd d (List.mem_append_left _ hd')) (by omega) h1
  rw [Nat.zero_add, hl] at hmore
  refine hmore.trans ?_
  rw [readVarintGo_ninth (At.cons.mp h2).1,
    ofNat_digit (hd last (List.mem_append_right _ (List.mem_singleton_self _)))]

/-! ## Reader after writer -/

/-- Below 2^56 the writer emits between one and eight bytes. -/
theorem writeVarint_ok {v : Nat} (hv : v < 2 ^ 56) :
    ∃ bs, writeVarint v = .ok bs ∧ 1 ≤ bs.length ∧ bs.length ≤ 8 := by
  unfold writeVarint
  split
  · exact ⟨[0], rfl, by simp, by simp⟩
  · next h0 =>
    have hl := digits128_length 8 10 v (by simpa using hv)
    have hn : 0 < (digits128 10 v).length := List.length_pos_iff.mpr (digits128_ne_nil h0)
    rw [if_pos (by simp [MAX_VARINT_LEN]; omega)]
    exact ⟨_, rfl, by simp; omega, by simpa using hl⟩

/-- Below 2^56 the reader gives back what the writer wrote. -/
theorem readVarint_writeVarint {v : Nat} {bs : Bytes} (hv : v < 2 ^ 56)
    (hw : writeVarint v = .ok bs) {data : Bytes} {offset : Nat} (hat : At data offset bs) :
    readVarint data offset = .ok (v, bs.length) := by
  unfold writeVarint at hw
  by_cases h0 : v = 0
  · rw [if_pos h0] at hw; cases hw
    have hb := (At.cons.mp hat).1
    have hle := hat.le (by simp)
    have h := readVarintGo_step (n := 7) (i := 0) rfl hb 0
    simp only [List.length_singleton] at hle
    rw [readVarint, if_neg (by omega), MAX_VARINT_LEN, h, h0]
    rfl
  · have hl := digits128_length 8 10 v (by simpa using hv)
    have hnil : digits128 10 v ≠ [] := digits128_ne_nil h0
    rw [if_neg h0, if_pos (by simp [MAX_VARINT_LEN]; omega)] at hw
    cases hw
    have hne : (digits128 10 v).reverse ≠ [] := by simpa using hnil
    have hle := hat.le (by rw [← List.length_pos_iff] at hne ⊢; simpa using hne)
    have hpos := List.length_pos_iff.mpr hnil
    simp only [varintBytes_length, List.length_reverse] at hle ⊢
    have h := readVarintGo_digits hne (fun d hd => digits128_lt 10 v d (by simpa using hd))
      (by simpa using hl) hat
    rw [readVarint, if_neg (by omega), MAX_VARINT_LEN, h, ofDigits128_digits 10 v (by simp; omega)]
    simp

theorem writeVarint_length_pos {v : Nat} {bs : Bytes} (hw : writeVarint v = .ok bs) :
    1 ≤ bs.length := by
  unfold writeVarint at hw
  split at hw
  · cases hw; simp
  · next h0 =>
    dsimp only at hw
    split at hw
    · cases hw
      have : 0 < (digits128 10 v).length := List.length_pos_iff.mpr (digits128_ne_nil h0)
      simp only [varintBytes_length, List.length_reverse]; omega
    · cases hw

/-- Bytes that read as `v` wherever they stand. -/
structure IsVarint (bs : Bytes) (v : Nat) : Prop where
  ne : bs ≠ []
  read : ∀ {data offset}, At data offset bs → readVarint data offset = .ok (v, bs.length)

theorem isVarint_writeVarint {v : Nat} {bs : Bytes} (hv : v < 2 ^ 56)
    (hw : writeVarint v = .ok bs) : IsVarint bs v where
  ne := List.length_pos_iff.mp (writeVarint_length_pos hw)
  read := readVarint_writeVarint hv hw

/-! ## Every `u64` -/

/-- The reader's values are those of a `u64`: induction on the bytes left. -/
theorem readVarintGo_lt {data : Bytes} {offset v k : Nat} : ∀ (n result : Nat), n ≤ 9 →
    result < 128 ^ (9 - n) → readVarintGo data offset n result = .ok (v, k) → v < 2 ^ 64
  | 0, _, _, _, h => by cases h
  | n + 1, result, hn, hlt, h => by
    rw [readVarintGo] at h
    cases hb : data[offset + (MAX_VARINT_LEN - (n + 1))]? with
    | none => simp only [hb] at h; cases h
    | some b =>
      have hbyte := b.toNat_lt
      simp only [hb] at h
      by_cases h0 : n = 0
      · subst h0
        rw [if_pos rfl] at h
        have heq : result * 256 + b.toNat = v := congrArg Prod.fst (Except.ok.inj h)
        simp only [Nat.zero_add, Nat.reduceSub] at hlt
        omega
      · rw [if_neg h0, low7] at h
        have hpow : 128 ^ (9 - n) = 128 ^ (9 - (n + 1)) * 128 := by
          rw [show 9 - n = 9 - (n + 1) + 1 by omega, Nat.pow_succ]
        by_cases hend : b &&& 0x80 = 0
        · rw [if_pos hend] at h
          have heq : result * 128 + b.toNat % 128 = v := congrArg Prod.fst (Except.ok.inj h)
          have hmax : 128 ^ (9 - n) ≤ 128 ^ 8 := Nat.pow_le_pow_right (by decide) (by omega)
          omega
        · rw [if_neg hend] at h
          exact readVarintGo_lt n _ (by omega) (by omega) h

theorem IsVarint.lt {bs : Bytes} {v : Nat} (h : IsVarint bs v) : v < 2 ^ 64 := by
  have hread := h.read (At.middle [] bs [])
  rw [readVarint] at hread
  split at hread
  · cases hread
  · exact readVarintGo_lt 9 0 (Nat.le_refl 9) (by decide) hread

theorem writeVarint_total {v : Nat} (h : v < 2 ^ 63) :
    ∃ bs, writeVarint v = .ok bs ∧ bs.length ≤ MAX_VARINT_LEN := by
  have hl := digits128_length 9 10 v (by simpa using h)
  unfold writeVarint
  split
  · exact ⟨[0], rfl, by decide⟩
  · exact ⟨_, if_pos hl, by rw [varintBytes_length, List.length_reverse]; exact hl⟩

theorem writeVarint_panics {v : Nat} (h : 2 ^ 63 ≤ v) : writeVarint v = panicked := by
  have hl := lt_digits128_length 9 10 v (by omega) (by decide)
  rw [writeVarint, if_neg (by omega)]
  exact if_neg (by rw [MAX_VARINT_LEN]; omega)

/-- From 2^56 on the ninth byte makes another value of the nine digits. -/
theorem readVarint_nine {w : Nat} (h56 : 2 ^ 56 ≤ w) (h63 : w < 2 ^ 63) :
    ∃ bs v, writeVarint w = .ok bs ∧ IsVarint bs v ∧ v ≠ w := by
  have h9 := digits128_length 9 10 w (by simpa using h63)
  have h8 := lt_digits128_length 8 10 w (by omega) (by decide)
  have hval := ofDigits128_digits 10 w (by omega)
  have hlt : ∀ d ∈ (digits128 10 w).reverse, d < 128 := fun d hd =>
    digits128_lt 10 w d (List.mem_reverse.mp hd)
  have hlen : (digits128 10 w).reverse.length = 9 := by rw [List.length_reverse]; omega
  have hwrite : writeVarint w = .ok (varintBytes (digits128 10 w).reverse) := by
    rw [writeVarint, if_neg (by omega)]
    exact if_pos h9
  generalize (digits128 10 w).reverse = ds at hval hlt hlen hwrite
  obtain ⟨init, last, rfl⟩ := (List.eq_nil_or_concat' ds).resolve_left (by rintro rfl; cases hlen)
  have hbytes : (varintBytes (init ++ [last])).length = 9 := by rw [varintBytes_length, hlen]
  rw [List.length_append, List.length_singleton] at hlen
  have hlast := hlt last (List.mem_append_right _ (List.mem_singleton_self _))
  have hsplit : ofDigits128 0 init * 128 + last = w := by
    rw [← hval, ofDigits128, ofDigits128, List.foldl_append]
    rfl
  have hne : varintBytes (init ++ [last]) ≠ [] := List.length_pos_iff.mp (by omega)
  refine ⟨_, ofDigits128 0 init * 256 + last, hwrite, ⟨hne, fun hat => ?_⟩, by omega⟩
  have hle := hat.le hne
  rw [readVarint, if_neg (by omega), MAX_VARINT_LEN, hbytes]
  exact readVarintGo_nine hlt (by omega) hat

/-- What the writer puts down reads as one value wherever it stands, as the
value written exactly below 2^56. -/
theorem writeVarint_isVarint {w : Nat} {bs : Bytes} (hw : writeVarint w = .ok bs) :
    ∃ v, IsVarint bs v ∧ (v = w ↔ w < 2 ^ 56) := by
  by_cases h56 : w < 2 ^ 56
  · exact ⟨w, isVarint_writeVarint h56 hw, iff_of_true rfl h56⟩
  · by_cases h63 : w < 2 ^ 63
    · obtain ⟨bs', v, hw', hv, hne⟩ := readVarint_nine (by omega) h63
      cases hw.symm.trans hw'
      exact ⟨v, hv, iff_of_false hne h56⟩
    · rw [writeVarint_panics (by omega)] at hw
      cases hw

/-- The reader gives `v` back from what the writer put down, in whatever it stands. -/
def VarintSurvives (v : UInt64) : Prop :=
  ∃ bs, writeVarint v.toNat = .ok bs ∧ bs.length ≤ MAX_VARINT_LEN ∧
    ∀ front rest, readVarint (front ++ (bs ++ rest)) front.length = .ok (v.toNat, bs.length)

theorem varintSurvives_iff (v : UInt64) : VarintSurvives v ↔ v.toNat < 2 ^ 56 := by
  constructor
  · intro h
    obtain ⟨bs, hw, -, hread⟩ := h
    obtain ⟨w, hw', hiff⟩ := writeVarint_isVarint hw
    have heq := (hread [] []).symm.trans (hw'.read (At.middle [] bs []))
    exact hiff.mp (congrArg Prod.fst (Except.ok.inj heq)).symm
  · intro hlt
    obtain ⟨bs, hw, -, h8⟩ := writeVarint_ok hlt
    exact ⟨bs, hw, by rw [MAX_VARINT_LEN]; omega, fun front rest =>
      readVarint_writeVarint hlt hw (At.middle front bs rest)⟩

/-! ## Signed values -/

/-- Where a signed value stands among the `u64`: 0, -1, 1, -2, 2, .. -/
def zigzag (v : Int64) : Nat := if v.toInt < 0 then (-v.toInt - 1).toNat * 2 + 1 else v.toInt.toNat * 2

/-- The signed value at a place. -/
def unzigzag (uv : Nat) : Int64 := Int64.ofInt (if uv % 2 = 1 then -(uv / 2 : Nat) - 1 else (uv / 2 : Nat))

theorem zigzag_lt (v : Int64) : zigzag v < 2 ^ 64 := by
  have hlow := v.le_toInt
  have hhigh := v.toInt_lt
  unfold zigzag
  split <;> omega

theorem unzigzag_zigzag (v : Int64) : unzigzag (zigzag v) = v := by
  have heq : (if zigzag v % 2 = 1 then -(zigzag v / 2 : Nat) - 1 else (zigzag v / 2 : Nat) : Int) = v.toInt := by
    unfold zigzag
    split <;> split <;> omega
  rw [unzigzag, heq, Int64.ofInt_toInt]

theorem zigzag_unzigzag {uv : Nat} (h : uv < 2 ^ 64) : zigzag (unzigzag uv) = uv := by
  have heq : (unzigzag uv).toInt = (if uv % 2 = 1 then -(uv / 2 : Nat) - 1 else (uv / 2 : Nat) : Int) := by
    refine Int64.toInt_ofInt_of_le ?_ ?_ <;> split <;> omega
  unfold zigzag
  rw [heq]
  split <;> split <;> omega

theorem readSignedVarint_eq {data : Bytes} {offset uv n : Nat} (huv : uv < 2 ^ 64) (h : readVarint data offset = .ok (uv, n)) :
    readSignedVarint data offset = .ok (unzigzag uv, n) := by
  have hhalf : asI64 (uv / 2) = (uv / 2 : Nat) := by
    unfold asI64
    rw [if_pos (by omega)]
  rw [readSignedVarint, h, Res.ok_bind]
  dsimp only
  rw [hhalf, Nat.and_one_is_mod]
  rfl

theorem writeSignedVarint_eq {v : Int64} (h : v ≠ Int64.minValue) : writeSignedVarint v = writeVarint (zigzag v) := by
  have hlow := v.le_toInt
  have hhigh := v.toInt_lt
  have hneg : v < 0 ↔ v.toInt < 0 := Int64.lt_iff_toInt_lt
  unfold writeSignedVarint zigzag
  by_cases hv : v < 0
  · have hmin : v.toInt ≠ -2 ^ 63 := fun heq => h (Int64.toInt_inj.mp heq)
    have hor : ∀ k : Nat, k * 2 ||| 1 = k * 2 + 1 := fun k => by
      rw [Nat.mul_comm]
      exact (Nat.two_pow_add_eq_or_of_lt (i := 1) (b := 1) (by decide) k).symm
    have hlt := hneg.mp hv
    rw [if_pos hv, if_neg h, if_pos hlt, asU64_of_nonneg (by omega) (by omega), Nat.mod_eq_of_lt (by omega), hor]
  · have hge := mt hneg.mpr hv
    rw [if_neg hv, if_neg hge, asU64_of_nonneg (by omega) hhigh, Nat.mod_eq_of_lt (by omega)]

/-- The writer stays in its buffers, and the reader gives `v` back from what it put down, in
whatever it stands. -/
def SignedSurvives (v : Int64) : Prop :=
  ∃ bs, writeSignedVarint v = .ok bs ∧ bs.length ≤ MAX_VARINT_LEN ∧
    ∀ front rest, readSignedVarint (front ++ (bs ++ rest)) front.length = .ok (v, bs.length)

theorem signedSurvives_iff (v : Int64) : SignedSurvives v ↔ -2 ^ 55 ≤ v.toInt ∧ v.toInt < 2 ^ 55 := by
  have hzig : zigzag v < 2 ^ 56 ↔ -2 ^ 55 ≤ v.toInt ∧ v.toInt < 2 ^ 55 := by
    unfold zigzag
    split <;> omega
  rw [← hzig]
  by_cases hmin : v = Int64.minValue
  · subst hmin
    refine iff_of_false (fun h => ?_) (by decide)
    obtain ⟨bs, hw, -⟩ := h
    cases hw
  · constructor
    · intro h
      obtain ⟨bs, hw, -, hread⟩ := h
      rw [writeSignedVarint_eq hmin] at hw
      obtain ⟨w, hvarint, hiff⟩ := writeVarint_isVarint hw
      have hback := readSignedVarint_eq hvarint.lt (hvarint.read (At.middle [] bs []))
      have heq : unzigzag w = v := congrArg Prod.fst (Except.ok.inj (hback.symm.trans (hread [] [])))
      refine hiff.mp ?_
      rw [← heq, zigzag_unzigzag hvarint.lt]
    · intro hlt
      obtain ⟨bs, hw, -, hlen⟩ := writeVarint_ok hlt
      refine ⟨bs, (writeSignedVarint_eq hmin).trans hw, Nat.le_succ_of_le hlen, fun front rest => ?_⟩
      have hread := readVarint_writeVarint hlt hw (At.middle front bs rest)
      rw [readSignedVarint_eq (zigzag_lt v) hread, unzigzag_zigzag]

/-- 2^55 comes back as another value, and the least `i64` is not written at all. -/
theorem signed_lost : ¬ SignedSurvives 36028797018963968 ∧ ¬ SignedSurvives (-9223372036854775808) := by
  constructor
  · intro h
    obtain ⟨bs, hw, -, hread⟩ := h
    cases hw
    have hfront := hread [] []
    revert hfront
    decide
  · intro h
    obtain ⟨bs, hw, -⟩ := h
    cases hw

end Sqllite
