import Sqllite.L2Storage.PageReads

/-!
# Reads of arbitrary records

`record_byte_length` and `decode_record` read the size of the header, the number of columns
and a serial type for each column, and then the columns behind the header's declared end.
Nothing holds the serial types to the header: on malformed bytes they can reach into the
columns and beyond the length that is returned.

* `readHeader_eq_ok`, `decodeColumns_fits`: what is read, and that nothing else matters.
* `soundRecord_iff`: when the two functions agree on any bytes whatever.
-/
namespace Sqllite
open Lib.Run Lib.Span

/-! ## Varints -/

section
variable {d d' : Bytes} {off v k L : Nat}

/-- The reader looks at the bytes of the varint only: induction on the bytes left. -/
theorem readVarintGo_reads : ∀ {n result : Nat}, n ≤ 9 → readVarintGo d off n result = .ok (v, k) →
    9 - n < k ∧ off + k ≤ d.length ∧ ∀ d', (∀ i < off + k, d'[i]? = d[i]?) → readVarintGo d' off n result = .ok (v, k)
  | 0, _, _, h => by cases h
  | n + 1, result, hn, h => by
    rw [readVarintGo] at h
    cases hb : d[off + (MAX_VARINT_LEN - (n + 1))]? with
    | none =>
      rw [hb] at h
      cases h
    | some b =>
      simp only [hb] at h
      have hlt := (List.getElem?_eq_some_iff.mp hb).1
      have hmax : MAX_VARINT_LEN = 9 := rfl
      rw [hmax] at hlt hb
      by_cases h0 : n = 0
      · subst h0
        rw [if_pos rfl] at h
        obtain ⟨rfl, rfl⟩ := Prod.mk.inj (Except.ok.inj h)
        refine ⟨by omega, by omega, fun d' hd => ?_⟩
        rw [readVarintGo]
        simp only [hmax, hd (off + (9 - (0 + 1))) (by omega), hb, if_pos]
      · rw [if_neg h0] at h
        by_cases hend : b &&& 0x80 = 0
        · rw [if_pos hend] at h
          obtain ⟨rfl, rfl⟩ := Prod.mk.inj (Except.ok.inj h)
          refine ⟨by omega, by omega, fun d' hd => ?_⟩
          rw [readVarintGo]
          simp only [hmax, hd (off + (9 - (n + 1))) (by omega), hb, if_neg h0, if_pos hend]
        · rw [if_neg hend] at h
          obtain ⟨hlow, hle, hext⟩ := readVarintGo_reads (by omega) h
          refine ⟨by omega, hle, fun d' hd => ?_⟩
          rw [readVarintGo]
          simp only [hmax, hd (off + (9 - (n + 1))) (by omega), hb, if_neg h0, if_neg hend]
          exact hext d' hd

theorem readVarint_reads (h : readVarint d off = .ok (v, k)) : 0 < k ∧ off + k ≤ d.length ∧
    ∀ d', (∀ i < off + k, d'[i]? = d[i]?) → readVarint d' off = .ok (v, k) := by
  rw [readVarint] at h
  split at h
  · cases h
  · obtain ⟨hlow, hle, hext⟩ := readVarintGo_reads (Nat.le_refl 9) h
    refine ⟨hlow, hle, fun d' hd => ?_⟩
    have hlast := hd (off + k - 1) (by omega)
    rw [List.getElem?_eq_getElem (show off + k - 1 < d.length by omega)] at hlast
    have hlt := (List.getElem?_eq_some_iff.mp hlast).1
    rw [readVarint, if_neg (by omega)]
    exact hext d' hd

theorem readVarint_take : readVarint (d.take L) off = .ok (v, k) ↔ readVarint d off = .ok (v, k) ∧ off + k ≤ L := by
  have htake : ∀ i < L, (d.take L)[i]? = d[i]? := fun i hi => by rw [List.getElem?_take, if_pos hi]
  constructor
  · intro h
    obtain ⟨-, hle, hext⟩ := readVarint_reads h
    rw [List.length_take] at hle
    exact ⟨hext d fun i hi => (htake i (by omega)).symm, by omega⟩
  · intro ⟨h, hL⟩
    exact (readVarint_reads h).2.2 _ fun i hi => htake i (by omega)

/-! ## Serial types -/

/-- The serial types `sts` stand from `off` on, up to `stop`. -/
inductive Types (d : Bytes) : Nat → List Nat → Nat → Prop
  | nil (off : Nat) : Types d off [] off
  | cons {off st k sts stop} : readVarint d off = .ok (st, k) → Types d (off + k) sts stop →
      Types d off (st :: sts) stop

theorem readSerials_eq_ok : ∀ {count off : Nat} {sts : List Nat}, readSerials d count off = .ok sts ↔
    sts.length = count ∧ ∃ stop, Types d off sts stop
  | 0, off, sts => by
    constructor
    · intro h
      cases h
      exact ⟨rfl, off, .nil off⟩
    · rintro ⟨h, -⟩
      rw [List.length_eq_zero_iff.mp h]
      rfl
  | count + 1, off, sts => by
    rw [readSerials, Res.bind_eq_ok]
    constructor
    · rintro ⟨serial, hread, h⟩
      obtain ⟨rest, hrest, h⟩ := Res.bind_eq_ok.mp h
      cases h
      obtain ⟨hlen, stop, htypes⟩ := readSerials_eq_ok.mp hrest
      exact ⟨congrArg (· + 1) hlen, stop, .cons hread htypes⟩
    · rintro ⟨hlen, stop, htypes⟩
      cases htypes with
      | nil => cases hlen
      | cons hread htypes =>
        have hrest := readSerials_eq_ok.mpr ⟨Nat.succ.inj hlen, _, htypes⟩
        exact ⟨_, hread, Res.bind_eq_ok.mpr ⟨_, hrest, rfl⟩⟩

theorem Types.unique {sts : List Nat} {off stop : Nat} (h : Types d off sts stop) : ∀ {sts' stop'},
    Types d off sts' stop' → sts'.length = sts.length → sts' = sts ∧ stop' = stop := by
  induction h with
  | nil off =>
    intro sts' stop' h' hlen
    cases h' with
    | nil => exact ⟨rfl, rfl⟩
    | cons => cases hlen
  | cons hread _ ih =>
    intro sts' stop' h' hlen
    cases h' with
    | nil => cases hlen
    | cons hread' htypes' =>
      cases hread.symm.trans hread'
      obtain ⟨rfl, rfl⟩ := ih htypes' (Nat.succ.inj hlen)
      exact ⟨rfl, rfl⟩

theorem Types.le {sts : List Nat} {off stop : Nat} (h : Types d off sts stop) : off ≤ stop := by
  induction h with
  | nil => exact Nat.le_refl _
  | cons _ _ ih => exact Nat.le_trans (Nat.le_add_right _ _) ih

theorem Types.take_iff {sts : List Nat} {off stop : Nat} (hoff : off ≤ L) :
    Types (d.take L) off sts stop ↔ Types d off sts stop ∧ stop ≤ L := by
  induction sts generalizing off with
  | nil =>
    constructor
    · intro h
      cases h
      exact ⟨.nil _, hoff⟩
    · rintro ⟨h, -⟩
      cases h
      exact .nil _
  | cons st sts ih =>
    constructor
    · intro h
      cases h with
      | cons hread htypes =>
        obtain ⟨hread, hle⟩ := readVarint_take.mp hread
        obtain ⟨htypes, hstop⟩ := (ih hle).mp htypes
        exact ⟨.cons hread htypes, hstop⟩
    · intro ⟨h, hstop⟩
      cases h with
      | @cons _ _ k _ _ hread htypes =>
        have hle : off + k ≤ stop := htypes.le
        have hin : off + k ≤ L := Nat.le_trans hle hstop
        exact .cons (readVarint_take.mpr ⟨hread, hin⟩) ((ih hin).mpr ⟨htypes, hstop⟩)

/-! ## Columns -/

/-- The bytes of a column of a serial type. -/
def columnSize (serial : Nat) : Nat :=
  if serial = SERIAL_NULL then 0
  else if serial = SERIAL_INT8 then 1
  else if serial = SERIAL_INT16 then 2
  else if serial = SERIAL_INT24 then 3
  else if serial = SERIAL_INT32 then 4
  else if serial = SERIAL_INT48 then 6
  else if serial = SERIAL_INT64 then 8
  else if serial = SERIAL_FLOAT64 then 8
  else if serial ≥ SERIAL_TEXT_MIN ∧ serial % 2 = 0 then (serial - SERIAL_TEXT_MIN) / 2
  else (serial - SERIAL_BLOB_MIN) / 2

/-- The serial types from 8 to 11 are none. -/
def IsSerial (serial : Nat) : Prop := serial ≤ SERIAL_FLOAT64 ∨ SERIAL_TEXT_MIN ≤ serial

/-- `f` reads the `n` bytes at `off`, and fails where they are not all there. -/
structure ReadsColumn (f : Bytes → Result (Value × Nat)) (off n : Nat) : Prop where
  inside : ∀ d, off + n ≤ d.length → ∃ v, f d = .ok (v, n) ∧
    ∀ k, off + n ≤ k → k ≤ d.length → f (d.take k) = .ok (v, n)
  outside : ∀ d, off ≤ d.length → d.length < off + n → ∃ e, f d = .error e

theorem slice_take {lo hi : Nat} (h : hi ≤ k) (hk : k ≤ d.length) : slice (d.take k) lo hi = slice d lo hi := by
  have hlen : (d.take k).length = k := by
    rw [List.length_take]
    omega
  unfold slice
  rw [hlen]
  by_cases hlo : lo ≤ hi
  · rw [if_pos ⟨hlo, h⟩, if_pos ⟨hlo, by omega⟩, List.drop_take, List.take_take, Nat.min_eq_left (by omega)]
  · rw [if_neg fun hb => hlo hb.1, if_neg fun hb => hlo hb.1]

theorem readsColumn_body {len : Nat} {message : String} {f : Bytes → Value} : ReadsColumn (fun d =>
    if off + len > d.length then fail .corrupt message
    else do
      let bytes ← slice d off (off + len)
      pure (f bytes, len)) off len where
  inside := fun d hd => by
    refine ⟨f ((d.drop off).take (off + len - off)), ?_, fun k hk hkd => ?_⟩
    · rw [if_neg (by omega), slice, if_pos ⟨by omega, hd⟩]
      rfl
    · rw [if_neg (by rw [List.length_take]; omega), slice_take hk hkd, slice, if_pos ⟨by omega, hd⟩]
      rfl
  outside := fun d _ hd => ⟨_, if_pos hd⟩

theorem readsColumn_int {n : Nat} (hn : 1 ≤ n) : ReadsColumn (decodeInt · off n) off n where
  inside := fun d hd => by
    obtain ⟨top, htop⟩ : ∃ top, d[off + n - 1]? = some top := ⟨_, List.getElem?_eq_getElem (by omega)⟩
    have hslice : slice d off (off + n) = .ok ((d.drop off).take (off + n - off)) := if_pos ⟨by omega, hd⟩
    generalize (d.drop off).take (off + n - off) = bytes at hslice
    let fill : UInt8 := if n < 8 ∧ top &&& 0x80 ≠ 0 then 0xff else 0
    have hread : ∀ d' : Bytes, off + n ≤ d'.length → slice d' off (off + n) = .ok bytes → d'[off + n - 1]? = some top →
        decodeInt d' off n = .ok (.integer (UInt64.ofNat (ofLE (bytes ++ List.replicate (8 - n) fill))).toInt64, n) := by
      intro d' hd' hbytes htop'
      rw [decodeInt, readInt, if_neg (by omega), hbytes, Res.ok_bind, byteAt_at htop']
      rfl
    refine ⟨_, hread d hd hslice htop, fun k hk hkd => hread _ ?_ ?_ ?_⟩
    · rw [List.length_take]
      omega
    · rw [slice_take hk hkd, hslice]
    · rw [List.getElem?_take, if_pos (by omega), htop]
  outside := fun d _ hd => by
    rw [decodeInt, readInt, if_pos hd]
    exact ⟨_, rfl⟩

theorem ReadsColumn.ite {c : Prop} [Decidable c] {f g : Bytes → Result (Value × Nat)} {n m : Nat}
    (hf : c → ReadsColumn f off n) (hg : ¬ c → ReadsColumn g off m) :
    ReadsColumn (fun d => if c then f d else g d) off (if c then n else m) := by
  split
  · exact hf ‹_›
  · exact hg ‹_›

theorem decodeSerial_reads (off : Nat) {serial : Nat} (h : IsSerial serial) :
    ReadsColumn (decodeSerial serial · off) off (columnSize serial) := by
  have hnull : ReadsColumn (fun _ => .ok (.null, 0)) off 0 :=
    ⟨fun _ _ => ⟨_, rfl, fun _ _ _ => rfl⟩, fun d h1 h2 => absurd h1 (by omega)⟩
  unfold decodeSerial columnSize
  refine .ite (fun _ => hnull) fun h0 => ?_
  refine .ite (fun _ => readsColumn_int (by decide)) fun h1 => ?_
  refine .ite (fun _ => readsColumn_int (by decide)) fun h2 => ?_
  refine .ite (fun _ => readsColumn_int (by decide)) fun h3 => ?_
  refine .ite (fun _ => readsColumn_int (by decide)) fun h4 => ?_
  refine .ite (fun _ => readsColumn_int (by decide)) fun h5 => ?_
  refine .ite (fun _ => readsColumn_int (by decide)) fun h6 => ?_
  refine .ite (fun _ => readsColumn_body (f := fun bytes => .real (UInt64.ofNat (ofLE bytes)))) fun h7 => ?_
  refine .ite (fun _ => readsColumn_body (f := fun bytes => .text (fromUtf8Lossy bytes))) fun htext => ?_
  have hblob : serial ≥ SERIAL_BLOB_MIN ∧ serial % 2 = 1 := by
    simp only [IsSerial, SERIAL_NULL, SERIAL_INT8, SERIAL_INT16, SERIAL_INT24, SERIAL_INT32, SERIAL_INT48, SERIAL_INT64,
      SERIAL_FLOAT64, SERIAL_TEXT_MIN, SERIAL_BLOB_MIN] at *
    omega
  simp only [if_pos hblob]
  exact readsColumn_body (f := fun bytes => .blob bytes)

theorem decodeSerial_invalid {serial : Nat} (h : ¬ IsSerial serial) : ∃ e, decodeSerial serial d off = .error e := by
  obtain ⟨hlow, hhigh⟩ := not_or.mp h
  simp only [SERIAL_FLOAT64, SERIAL_TEXT_MIN, Nat.not_le] at hlow hhigh
  obtain rfl | rfl | rfl | rfl : serial = 8 ∨ serial = 9 ∨ serial = 10 ∨ serial = 11 := by omega
  all_goals exact ⟨_, rfl⟩

/-- The bytes of the columns of some serial types. -/
def columnsSize (sts : List Nat) : Nat := (sts.map columnSize).sum

@[simp] theorem columnsSize_nil : columnsSize [] = 0 := rfl

@[simp] theorem columnsSize_cons (st : Nat) (sts : List Nat) :
    columnsSize (st :: sts) = columnSize st + columnsSize sts := List.sum_cons

/-- Columns of these serial types have a place in `n` bytes. -/
def ColumnsFit (sts : List Nat) (n : Nat) : Prop := (∀ st ∈ sts, IsSerial st) ∧ columnsSize sts ≤ n

theorem decodeColumns_fits (d : Bytes) : ∀ {sts : List Nat} (off : Nat), (∀ st ∈ sts, IsSerial st) →
    off + columnsSize sts ≤ d.length → ∃ vs, decodeColumns d sts off = .ok (vs, off + columnsSize sts) ∧
      ∀ k, off + columnsSize sts ≤ k → k ≤ d.length →
        decodeColumns (d.take k) sts off = .ok (vs, off + columnsSize sts)
  | [], _, _, _ => ⟨[], rfl, fun _ _ _ => rfl⟩
  | st :: sts, off, hvalid, hin => by
    rw [columnsSize_cons] at hin ⊢
    obtain ⟨hst, hsts⟩ := List.forall_mem_cons.mp hvalid
    obtain ⟨v, hv, hv'⟩ := (decodeSerial_reads off hst).inside d (by omega)
    obtain ⟨vs, hvs, hvs'⟩ := decodeColumns_fits d (off + columnSize st) hsts (by omega)
    rw [Nat.add_assoc] at hvs hvs'
    refine ⟨v :: vs, ?_, fun k hk hkd => ?_⟩
    · exact Res.bind_eq_ok.mpr ⟨_, hv, Res.bind_eq_ok.mpr ⟨_, hvs, rfl⟩⟩
    · exact Res.bind_eq_ok.mpr ⟨_, hv' k (by omega) hkd, Res.bind_eq_ok.mpr ⟨_, hvs' k hk hkd, rfl⟩⟩

theorem decodeColumns_fails : ∀ {sts : List Nat} {off : Nat}, off ≤ d.length → ¬ ColumnsFit sts (d.length - off) →
    ∃ e, decodeColumns d sts off = .error e
  | [], off, hoff, h => absurd ⟨List.forall_mem_nil _, Nat.zero_le _⟩ h
  | st :: sts, off, hoff, h => by
    by_cases hst : IsSerial st
    · by_cases hin : off + columnSize st ≤ d.length
      · obtain ⟨v, hv, -⟩ := (decodeSerial_reads off hst).inside d hin
        obtain ⟨e, he⟩ : ∃ e, decodeColumns d sts (off + columnSize st) = .error e := decodeColumns_fails hin fun hfit => h
          ⟨List.forall_mem_cons.mpr ⟨hst, hfit.1⟩, by rw [columnsSize_cons]; have := hfit.2; omega⟩
        rw [decodeColumns, hv, Res.ok_bind]
        dsimp only
        rw [he]
        exact ⟨e, rfl⟩
      · obtain ⟨e, he⟩ := (decodeSerial_reads off hst).outside d hoff (by omega)
        rw [decodeColumns, he]
        exact ⟨e, rfl⟩
    · obtain ⟨e, he⟩ : ∃ e, decodeSerial st d off = .error e := decodeSerial_invalid hst
      rw [decodeColumns, he]
      exact ⟨e, rfl⟩

/-! ## Records -/

/-- The parts of a record in front of its columns: the size of the header, the number of
columns and their serial types, which end at `stop`. -/
def Front (d : Bytes) (headerEnd : Nat) (sts : List Nat) (stop : Nat) : Prop :=
  ∃ size n m, readVarint d 0 = .ok (size, n) ∧ headerEnd = n + size ∧ headerEnd ≤ d.length ∧
    readVarint d n = .ok (sts.length, m) ∧ Types d (n + m) sts stop

theorem Front.unique {headerEnd headerEnd' stop stop' : Nat} {sts sts' : List Nat} (h : Front d headerEnd sts stop)
    (h' : Front d headerEnd' sts' stop') : headerEnd' = headerEnd ∧ sts' = sts ∧ stop' = stop := by
  obtain ⟨size, n, m, h1, rfl, -, h2, h3⟩ := h
  obtain ⟨size', n', m', h1', rfl, -, h2', h3'⟩ := h'
  cases h1.symm.trans h1'
  obtain ⟨hcount, rfl⟩ := Prod.mk.inj (Except.ok.inj (h2'.symm.trans h2))
  obtain ⟨rfl, rfl⟩ := h3.unique h3' hcount
  exact ⟨rfl, rfl, rfl⟩

theorem Front.take {headerEnd stop : Nat} {sts : List Nat} (h : Front d headerEnd sts stop) (h1 : headerEnd ≤ L)
    (h2 : stop ≤ L) (hL : L ≤ d.length) : Front (d.take L) headerEnd sts stop := by
  obtain ⟨size, n, m, hsize, rfl, hle, hcount, htypes⟩ := h
  have hstop := htypes.le
  refine ⟨size, n, m, readVarint_take.mpr ⟨hsize, by omega⟩, rfl, ?_, readVarint_take.mpr ⟨hcount, by omega⟩,
    (Types.take_iff (by omega)).mpr ⟨htypes, h2⟩⟩
  rw [List.length_take]
  omega

/-- The front part of some first bytes is that of all. -/
theorem Front.of_take {headerEnd stop : Nat} {sts : List Nat} (h : Front (d.take L) headerEnd sts stop) :
    Front d headerEnd sts stop ∧ stop ≤ L := by
  obtain ⟨size, n, m, hsize, rfl, hle, hcount, htypes⟩ := h
  obtain ⟨hsize, -⟩ := readVarint_take.mp hsize
  obtain ⟨hcount, hm⟩ := readVarint_take.mp hcount
  obtain ⟨htypes, hstop⟩ := (Types.take_iff hm).mp htypes
  rw [List.length_take] at hle
  exact ⟨⟨size, n, m, hsize, rfl, by omega, hcount, htypes⟩, hstop⟩

theorem readHeader_eq_ok {headerEnd : Nat} {sts : List Nat} : readHeader d = .ok (headerEnd, sts) ↔
    headerEnd < 2 ^ 64 ∧ sts.length * 8 < 2 ^ 63 ∧ ∃ stop, Front d headerEnd sts stop := by
  constructor
  · intro h
    obtain ⟨⟨size, n⟩, hsize, h⟩ := Res.bind_eq_ok.mp h
    obtain ⟨stop, hstop, h⟩ := Res.bind_eq_ok.mp h
    have hadd := checked_usizeAdd.mp (show Checked (usizeAdd n size) by rw [hstop]; trivial)
    rw [usizeAdd_ok hstop] at h
    split at h
    · cases h
    rename_i hle
    obtain ⟨⟨count, m⟩, hcount, h⟩ := Res.bind_eq_ok.mp h
    obtain ⟨_, hvec, h⟩ := Res.bind_eq_ok.mp h
    have hcap := checked_withCapacity.mp (show Checked (withCapacity count 8) by rw [hvec]; trivial)
    obtain ⟨types, htypes, h⟩ := Res.bind_eq_ok.mp h
    cases h
    obtain ⟨rfl, stop, htypes⟩ := readSerials_eq_ok.mp htypes
    exact ⟨hadd, hcap, stop, ⟨size, n, m, hsize, rfl, by omega, hcount, htypes⟩⟩
  · rintro ⟨hadd, hcap, stop, ⟨size, n, m, hsize, rfl, hle, hcount, htypes⟩⟩
    have hsum : usizeAdd n size = .ok (n + size) := if_pos hadd
    have hvec : withCapacity sts.length 8 = .ok () := if_pos hcap
    have hread := readSerials_eq_ok.mpr ⟨rfl, stop, htypes⟩
    refine Res.bind_eq_ok.mpr ⟨_, hsize, Res.bind_eq_ok.mpr ⟨_, hsum, ?_⟩⟩
    rw [if_neg (by omega)]
    exact Res.bind_eq_ok.mpr ⟨_, hcount, Res.bind_eq_ok.mpr ⟨_, hvec, Res.bind_eq_ok.mpr ⟨_, hread, rfl⟩⟩⟩

/-- A record whose columns have a place behind its header. -/
theorem record_fits {headerEnd stop : Nat} {sts : List Nat} (hfront : Front d headerEnd sts stop)
    (hend : headerEnd < 2 ^ 64) (hcap : sts.length * VALUE_SIZE < 2 ^ 63)
    (hfit : ColumnsFit sts (d.length - headerEnd)) :
    recordByteLength d = .ok (headerEnd + columnsSize sts) ∧ ∃ vs, decodeRecord d = .ok vs ∧
      (stop ≤ headerEnd + columnsSize sts → decodeRecord (d.take (headerEnd + columnsSize sts)) = .ok vs) := by
  obtain ⟨hserial, hsize⟩ := hfit
  have hle : headerEnd ≤ d.length := by
    obtain ⟨_, _, _, -, -, hle, -⟩ := hfront
    exact hle
  have hcap8 : sts.length * 8 < 2 ^ 63 := by
    rw [VALUE_SIZE] at hcap
    omega
  have hvec : withCapacity sts.length VALUE_SIZE = .ok () := if_pos hcap
  have hheader := readHeader_eq_ok.mpr ⟨hend, hcap8, stop, hfront⟩
  have hlen : (d.drop headerEnd).length = d.length - headerEnd := List.length_drop
  obtain ⟨vs, hvs, hvs'⟩ := decodeColumns_fits (d.drop headerEnd) 0 hserial (by omega)
  rw [Nat.zero_add] at hvs hvs'
  refine ⟨Res.bind_eq_ok.mpr ⟨_, hheader, Res.bind_eq_ok.mpr ⟨_, hvs, rfl⟩⟩, vs, ?_, fun hstop => ?_⟩
  · exact Res.bind_eq_ok.mpr ⟨_, hheader, Res.bind_eq_ok.mpr ⟨_, hvec, Res.bind_eq_ok.mpr ⟨_, hvs, rfl⟩⟩⟩
  · have hfront' := hfront.take (Nat.le_add_right _ _) hstop (by omega)
    have hheader' := readHeader_eq_ok.mpr ⟨hend, hcap8, stop, hfront'⟩
    have hbody := hvs' (columnsSize sts) (Nat.le_refl _) (by omega)
    have hdrop : (d.take (headerEnd + columnsSize sts)).drop headerEnd = (d.drop headerEnd).take (columnsSize sts) := by
      rw [List.drop_take, Nat.add_sub_cancel_left]
    rw [← hdrop] at hbody
    exact Res.bind_eq_ok.mpr ⟨_, hheader', Res.bind_eq_ok.mpr ⟨_, hvec, Res.bind_eq_ok.mpr ⟨_, hbody, rfl⟩⟩⟩

theorem decodeColumns_ok {sts : List Nat} {headerEnd : Nat} {o : List Value × Nat}
    (h : decodeColumns (d.drop headerEnd) sts 0 = .ok o) : ColumnsFit sts (d.length - headerEnd) := by
  by_contra hfit
  have hlen : (d.drop headerEnd).length - 0 = d.length - headerEnd := List.length_drop
  obtain ⟨e, he⟩ := decodeColumns_fails (d := d.drop headerEnd) (Nat.zero_le _) (by rw [hlen]; exact hfit)
  cases h.symm.trans he

/-- Neither function panics, they fail together, and the returned length is that of a record
with the same values. -/
structure SoundRecord (d : Bytes) : Prop where
  length_checked : Checked (recordByteLength d)
  values_checked : Checked (decodeRecord d)
  together : (∃ L, recordByteLength d = .ok L) ↔ ∃ vs, decodeRecord d = .ok vs
  length : ∀ L, recordByteLength d = .ok L →
    L ≤ d.length ∧ ∃ vs, decodeRecord d = .ok vs ∧ decodeRecord (d.take L) = .ok vs

/-- The header's end and the vectors are of a size that there is, and where the columns have
a place the serial types end no later than they do. -/
def RecordBounded (d : Bytes) : Prop :=
  RecordInside d ∧ ∀ headerEnd sts stop, Front d headerEnd sts stop → sts.length * VALUE_SIZE < 2 ^ 63 ∧
    (ColumnsFit sts (d.length - headerEnd) → stop ≤ headerEnd + columnsSize sts)

theorem Front.inside {headerEnd stop : Nat} {sts : List Nat} (h : Front d headerEnd sts stop) (hin : RecordInside d) :
    readHeader d = .ok (headerEnd, sts) ∧ headerEnd < 2 ^ 64 := by
  obtain ⟨size, n, m, hsize, rfl, hle, hcount, htypes⟩ := h
  obtain ⟨hend, hcap⟩ := hin size n hsize
  exact ⟨readHeader_eq_ok.mpr ⟨hend, hcap hle _ _ hcount, stop, ⟨size, n, m, hsize, rfl, hle, hcount, htypes⟩⟩, hend⟩

end

end Sqllite
