import Sqllite.Lib.Bytes
import Sqllite.Lib.Run

/-!
# Errors, values and byte access

`Result` is Rust's `Result` with panics as a third outcome: an index or slice
out of range, an `assert!`, or (overflow checks on, as in `cargo test`) an
arithmetic overflow ends in `Fault.panic`. Integers of a fixed width are `Nat`
(`usize`, `u64`, `u32`, `u16`), with the check or the reduction written out
where a value can leave its width; `i64` is `Int64` in a `Value` and `Int`
as a B-tree key; an `f64` is its 64-bit pattern.
-/
namespace Sqllite
open Lib.Run Lib.Span

/-- mirrors sqllite-core/src/error.rs:10-46 -/
inductive ResultCode where
  | ok | error | internal | perm | abort | busy | locked | noMem | readOnly | interrupt
  | ioErr | corrupt | notFound | full | cantOpen | protocol | empty | schema | tooBig
  | constraint | mismatch | misuse | noLfs | auth | format | range | notADb | notice
  | warning | row | done
  deriving DecidableEq, Repr

/-- mirrors sqllite-core/src/error.rs:48-50 -/
def ResultCode.isOk (c : ResultCode) : Bool :=
  match c with
  | .ok | .row | .done => true
  | _ => false

/-- mirrors sqllite-core/src/error.rs:95-105 -/
inductive SqlliteError where
  | sql (code : ResultCode) (message : String)
  | io (message : String)
  | parse (message : String)
  deriving DecidableEq, Repr

abbrev Result (α : Type) := Res SqlliteError α

/-- `Err(SqlliteError::sql(code, message))`. -/
def fail {α : Type} (code : ResultCode) (message : String) : Result α :=
  .error (.err (.sql code message))

/-- A Rust panic. -/
def panicked {α : Type} : Result α := .error .panic

/-- A SQL value; a real is its bit pattern.
mirrors sqllite-core/src/types.rs:40-47 -/
inductive Value where
  | null
  | integer (i : Int64)
  | real (bits : UInt64)
  | text (s : String)
  | blob (b : Bytes)
  deriving DecidableEq, Repr

/-! ## `i64` and `u64` -/

/-- `i as u64`. -/
def asU64 (i : Int) : Nat := (i % 2 ^ 64).toNat

/-- `u as i64`, for `u < 2^64`. -/
def asI64 (u : Nat) : Int := if u < 2 ^ 63 then u else (u : Int) - 2 ^ 64

theorem asU64_of_nonneg {i : Int} (h0 : 0 ≤ i) (h : i < 2 ^ 63) : asU64 i = i.toNat := by
  unfold asU64; omega

theorem asI64_toNat {i : Int} (h0 : 0 ≤ i) (h : i < 2 ^ 63) : asI64 i.toNat = i := by
  unfold asI64; split <;> omega

/-- `a + b` on `usize`, overflow checked. -/
def usizeAdd (a b : Nat) : Result Nat := if a + b < 2 ^ 64 then .ok (a + b) else panicked

/-! ## Slices -/

/-- `&d[lo..hi]`. -/
def slice (d : Bytes) (lo hi : Nat) : Result Bytes :=
  if lo ≤ hi ∧ hi ≤ d.length then .ok ((d.drop lo).take (hi - lo)) else panicked

/-- `d[i]`. -/
def byteAt (d : Bytes) (i : Nat) : Result UInt8 :=
  match d[i]? with
  | some b => .ok b
  | none => panicked

/-- `d[off..off + bs.len()].copy_from_slice(bs)`. -/
def copyInto (d : Bytes) (off : Nat) (bs : Bytes) : Result Bytes :=
  if off + bs.length ≤ d.length then .ok (patch d off bs) else panicked

/-- mirrors sqllite-core/src/io/mod.rs:136-138 -/
def readU16Be (d : Bytes) (off : Nat) : Result Nat := do
  let bs ← slice d off (off + 2)
  pure (ofBE bs)

/-- mirrors sqllite-core/src/io/mod.rs:141-143 -/
def writeU16Be (d : Bytes) (off v : Nat) : Result Bytes := copyInto d off (be16 v)

/-- mirrors sqllite-core/src/io/mod.rs:146-153 -/
def readU32Be (d : Bytes) (off : Nat) : Result Nat := do
  let bs ← slice d off (off + 4)
  pure (ofBE bs)

/-- mirrors sqllite-core/src/io/mod.rs:156-158 -/
def writeU32Be (d : Bytes) (off v : Nat) : Result Bytes := copyInto d off (be32 v)

theorem slice_at {d : Bytes} {off hi : Nat} {bs : Bytes} (h : At d off bs)
    (hl : off + bs.length ≤ d.length) (hhi : hi = off + bs.length) : slice d off hi = .ok bs := by
  subst hhi
  have : off + bs.length - off = bs.length := by omega
  rw [slice, if_pos ⟨by omega, hl⟩, this, h.take]

theorem slice_at_ne {d : Bytes} {off hi : Nat} {bs : Bytes} (h : At d off bs) (hne : bs ≠ [])
    (hhi : hi = off + bs.length) : slice d off hi = .ok bs :=
  slice_at h (h.le hne) hhi

theorem byteAt_at {d : Bytes} {i : Nat} {b : UInt8} (h : d[i]? = some b) : byteAt d i = .ok b := by
  rw [byteAt, h]

theorem readU16Be_mod {d : Bytes} {off v : Nat} (h : At d off (be16 v)) :
    readU16Be d off = .ok (v % 65536) := by
  rw [readU16Be, slice_at_ne h (by simp [be16]) (by simp)]
  simp

theorem readU16Be_at {d : Bytes} {off v : Nat} (h : At d off (be16 v)) (hv : v < 65536) :
    readU16Be d off = .ok v := by
  rw [readU16Be_mod h, Nat.mod_eq_of_lt hv]

theorem readU32Be_at {d : Bytes} {off v : Nat} (h : At d off (be32 v)) (hv : v < 2 ^ 32) :
    readU32Be d off = .ok v := by
  rw [readU32Be, slice_at_ne h (by simp [be32]) (by simp)]
  simpa using hv

theorem slice_eq_ok {d bs : Bytes} {lo hi : Nat} (h : slice d lo hi = .ok bs) :
    bs.length = hi - lo ∧ At d lo bs := by
  rw [slice] at h
  split at h
  · rename_i hb
    cases h
    have hlen : ((d.drop lo).take (hi - lo)).length = hi - lo := by simp; omega
    exact ⟨hlen, At.of_take (by rw [hlen])⟩
  · cases h

theorem byteAt_eq_ok {d : Bytes} {i : Nat} {b : UInt8} (h : byteAt d i = .ok b) :
    d[i]? = some b := by
  rw [byteAt] at h
  split at h
  · cases h
    assumption
  · cases h

theorem readU16Be_eq_ok {d : Bytes} {off v : Nat} (h : readU16Be d off = .ok v) :
    v < 65536 ∧ At d off (be16 v) := by
  obtain ⟨bs, hs, h⟩ := Res.bind_eq_ok.mp h
  cases h
  have hlen : bs.length = 2 := by
    rw [(slice_eq_ok hs).1]
    omega
  have hlt := ofBE_lt bs
  rw [hlen] at hlt
  exact ⟨hlt, by rw [be16_ofBE hlen]; exact (slice_eq_ok hs).2⟩

theorem readU32Be_eq_ok {d : Bytes} {off v : Nat} (h : readU32Be d off = .ok v) :
    v < 2 ^ 32 ∧ At d off (be32 v) := by
  obtain ⟨bs, hs, h⟩ := Res.bind_eq_ok.mp h
  cases h
  have hlen : bs.length = 4 := by
    rw [(slice_eq_ok hs).1]
    omega
  have hlt := ofBE_lt bs
  rw [hlen] at hlt
  exact ⟨hlt, by rw [be32_ofBE hlen]; exact (slice_eq_ok hs).2⟩

theorem readU32Be_ok {d : Bytes} {off : Nat} (h : off + 4 ≤ d.length) : ∃ v, readU32Be d off = .ok v := by
  rw [readU32Be, slice, if_pos (by omega)]
  exact ⟨_, rfl⟩

theorem copyInto_ok {d : Bytes} {off : Nat} {bs : Bytes} (h : off + bs.length ≤ d.length) :
    copyInto d off bs = .ok (patch d off bs) := by rw [copyInto, if_pos h]

theorem writeU16Be_ok {d : Bytes} {off v : Nat} (h : off + 2 ≤ d.length) :
    writeU16Be d off v = .ok (patch d off (be16 v)) := copyInto_ok h

theorem writeU32Be_ok {d : Bytes} {off v : Nat} (h : off + 4 ≤ d.length) :
    writeU32Be d off v = .ok (patch d off (be32 v)) := copyInto_ok h

end Sqllite
