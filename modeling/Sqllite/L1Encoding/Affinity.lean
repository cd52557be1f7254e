import Sqllite.L1Encoding.Values
import Sqllite.Lib.Binary64

/-!
# Column affinities (`types.rs`)

`apply_affinity` converts a value to what a column of that affinity stores. Text, integer,
real and blob affinity leave their own output alone. Numeric affinity asks `as_integer`
first, which truncates every real, so a real it has made from a text is cut off the next time.

* `Value.faithful_iff`: where a conversion may be repeated and keeps the number.
* `f64AsI64_whole`: `r as i64` of a whole number is that number.
-/
namespace Sqllite
open Lib Lib.Span

namespace Value

/-- The bits of `as_real`; a real has its own. -/
def realBits : Value → Option UInt64
  | .real bits => some bits
  | v => v.asReal.map Float.toBits

/-- mirrors sqllite-core/src/types.rs:134-168 -/
def applyAffinity (v : Value) (affinity : Affinity) : Value :=
  if v.isNull then .null
  else match affinity with
    | .text => .text v.toText
    | .integer =>
      match v.asInteger with
      | some i => .integer i
      | none => v
    | .real =>
      match v.realBits with
      | some r => .real r
      | none => v
    | .numeric =>
      match v.asInteger with
      | some i => .integer i
      | none =>
        match v.realBits with
        | some r => .real r
        | none => .text v.toText
    | .blob =>
      match v with
      | .blob b => .blob b
      | _ => .blob (asBytes v.toText)

/-- The number that a value stands for. A text stands for the one it is read as; NaN and the
infinities are none. -/
def number : Value → Option ℚ
  | .integer i => some i.toInt
  | .real bits => Binary64.bitsValue bits
  | .text s =>
    match parseI64 s with
    | some i => some i.toInt
    | none => (parseF64 s).bind fun r => Binary64.bitsValue r.toBits
  | _ => none

/-- An integer, a real, or a text that is read as one. -/
def Numeric (v : Value) : Prop := v.asInteger ≠ none ∨ v.asReal ≠ none

/-- A conversion that may be repeated, and keeps what a number stands for. -/
def Faithful (a : Affinity) (v : Value) : Prop :=
  (v.applyAffinity a).applyAffinity a = v.applyAffinity a ∧
    (a = .numeric → v.Numeric → (v.applyAffinity a).number = v.number)

/-- What numeric affinity does not cut off: a real is a whole number that fits, a text is no
decimal fraction, a blob is not the text of a number. -/
def Uncut : Value → Prop
  | .real bits => ∃ i : Int64, Binary64.bitsValue bits = some (i.toInt : ℚ)
  | .text s => parseI64 s ≠ none ∨ parseF64 s = none
  | .blob b => parseI64 (fromUtf8Lossy b) = none ∧ parseF64 (fromUtf8Lossy b) = none
  | _ => True

end Value

/-! ## Truncation -/

/-- `r as i64` of a whole number that fits. -/
theorem f64AsI64_whole {bits : UInt64} {i : Int64} (h : Binary64.bitsValue bits = some (i.toInt : ℚ)) :
    f64AsI64 (Float.ofBits bits) = i := by
  have hlow := i.le_toInt
  have hhigh := i.toInt_lt
  unfold f64AsI64
  rcases Binary64.whole_ofBits h with ⟨hzero, s, hunpack⟩ | ⟨hne, hwhole⟩
  · obtain ⟨hnot, htrunc⟩ := Binary64.truncation_zero hunpack
    rw [if_neg hnot, htrunc]
    exact Int64.toInt_inj.mp hzero.symm
  · by_cases hneg : i.toInt < 0
    · have hopposite : Binary64.Whole (-Float.ofBits bits) (i.toInt.natAbs : ℕ) := by
        rw [show ((i.toInt.natAbs : ℕ) : ℤ) = -i.toInt by omega]
        exact hwhole.neg hne
      rw [if_pos (hwhole.lt_zero.mpr hneg), hopposite.toUInt64 (by omega), Nat.min_eq_left (by omega),
        show -((i.toInt.natAbs : ℕ) : ℤ) = i.toInt by omega, Int64.ofInt_toInt]
    · rw [if_neg (hwhole.lt_zero.not.mpr hneg)]
      obtain ⟨n, hn⟩ := Int.eq_ofNat_of_zero_le (not_lt.mp hneg)
      rw [hn] at hwhole hhigh
      rw [hwhole.toUInt64 (by omega), Nat.min_eq_left (by omega), ← hn, Int64.ofInt_toInt]

namespace Value

/-! ## The other affinities -/

theorem applyAffinity_integer (v : Value) : v.applyAffinity .integer =
    match v.asInteger with
    | some i => .integer i
    | none => v := by
  cases v <;> rfl

theorem applyAffinity_real (v : Value) : v.applyAffinity .real =
    match v.realBits with
    | some r => .real r
    | none => v := by
  cases v <;> rfl

/-- Each of them makes a value of its own kind, or leaves the value as it is. -/
theorem applyAffinity_twice (v : Value) {a : Affinity} (ha : a ≠ .numeric) :
    (v.applyAffinity a).applyAffinity a = v.applyAffinity a := by
  cases a with
  | numeric => exact absurd rfl ha
  | text => cases v <;> rfl
  | blob => cases v <;> rfl
  | integer =>
    rw [applyAffinity_integer v]
    cases h : v.asInteger with
    | some i => rfl
    | none => rw [applyAffinity_integer, h]
  | real =>
    rw [applyAffinity_real v]
    cases h : v.realBits with
    | some r => rfl
    | none => rw [applyAffinity_real, h]

/-! ## Numeric affinity -/

theorem applyAffinity_numeric_text (s : String) : (Value.text s).applyAffinity .numeric =
    match parseI64 s with
    | some i => .integer i
    | none =>
      match parseF64 s with
      | some r => .real r.toBits
      | none => .text s := by
  simp only [applyAffinity, asInteger, realBits, asReal, toText, isNull]
  cases parseI64 s with
  | some i => rfl
  | none => cases parseF64 s <;> rfl

/-- A text is converted to a number that stands for what it does. -/
theorem number_numeric_text (s : String) : ((Value.text s).applyAffinity .numeric).number = (Value.text s).number := by
  rw [applyAffinity_numeric_text, number]
  cases hi : parseI64 s with
  | some i => rfl
  | none =>
    cases hr : parseF64 s with
    | some r => rfl
    | none => simp only [number, hi, hr]

theorem numeric_text_twice_iff (s : String) :
    ((Value.text s).applyAffinity .numeric).applyAffinity .numeric = (Value.text s).applyAffinity .numeric ↔
      parseI64 s ≠ none ∨ parseF64 s = none := by
  rw [applyAffinity_numeric_text]
  cases hi : parseI64 s with
  | some i => exact iff_of_true rfl (.inl nofun)
  | none =>
    cases hr : parseF64 s with
    | some r => exact iff_of_false nofun nofun
    | none => exact iff_of_true (by simp only [applyAffinity_numeric_text, hi, hr]) (.inr rfl)

theorem numeric_blob_twice_iff (b : Bytes) :
    ((Value.blob b).applyAffinity .numeric).applyAffinity .numeric = (Value.blob b).applyAffinity .numeric ↔
      parseI64 (fromUtf8Lossy b) = none ∧ parseF64 (fromUtf8Lossy b) = none := by
  have honce : (Value.blob b).applyAffinity .numeric = .text (fromUtf8Lossy b) := rfl
  rw [honce, applyAffinity_numeric_text]
  cases hi : parseI64 (fromUtf8Lossy b) with
  | some i => exact iff_of_false nofun nofun
  | none =>
    cases hr : parseF64 (fromUtf8Lossy b) with
    | some r => exact iff_of_false nofun nofun
    | none => exact iff_of_true rfl ⟨rfl, rfl⟩

/-- A real is truncated, which keeps what it stands for when that is a whole number that fits. -/
theorem number_numeric_real_iff (bits : UInt64) :
    ((Value.real bits).applyAffinity .numeric).number = (Value.real bits).number ↔ (Value.real bits).Uncut := by
  have honce : (Value.real bits).applyAffinity .numeric = .integer (f64AsI64 (Float.ofBits bits)) := rfl
  rw [honce]
  constructor
  · intro h
    exact ⟨_, h.symm⟩
  · rintro ⟨i, h⟩
    rw [f64AsI64_whole h]
    exact h.symm

theorem faithful_numeric_iff (v : Value) : v.Faithful .numeric ↔ v.Uncut := by
  cases v with
  | null => exact iff_of_true ⟨rfl, fun _ _ => rfl⟩ trivial
  | integer i => exact iff_of_true ⟨rfl, fun _ _ => rfl⟩ trivial
  | real bits =>
    constructor
    · intro h
      exact (number_numeric_real_iff bits).mp (h.2 rfl (.inl nofun))
    · intro h
      exact ⟨rfl, fun _ _ => (number_numeric_real_iff bits).mpr h⟩
  | text s =>
    rw [Faithful, numeric_text_twice_iff]
    exact and_iff_left fun _ _ => number_numeric_text s
  | blob b =>
    rw [Faithful, numeric_blob_twice_iff]
    refine and_iff_left fun _ h => ?_
    rcases h with h | h <;> exact absurd rfl h

/-- A conversion may be repeated, and keeps the number, unless numeric affinity cuts it off. -/
theorem faithful_iff (a : Affinity) (v : Value) : v.Faithful a ↔ (a = .numeric → v.Uncut) := by
  by_cases ha : a = .numeric
  · subst ha
    rw [faithful_numeric_iff]
    exact ⟨fun h _ => h, fun h => h rfl⟩
  · exact iff_of_true ⟨applyAffinity_twice v ha, fun h => absurd h ha⟩ fun h => absurd h ha

/-- The text of one and a half is that real at first, and one the next time. -/
theorem unfaithful_fraction : ¬ (∀ a v, Faithful a v) ∧
    (Value.text "1.5").applyAffinity .numeric = .real 0x3FF8000000000000 ∧
    (Value.real 0x3FF8000000000000).applyAffinity .numeric = .integer 1 := by
  have hreal : (Value.text "1.5").applyAffinity .numeric = .real 0x3FF8000000000000 := by decide +kernel
  have hcut : (Value.real 0x3FF8000000000000).applyAffinity .numeric = .integer 1 := by decide +kernel
  refine ⟨fun h => ?_, hreal, hcut⟩
  have htwice := (h .numeric (.text "1.5")).1
  rw [hreal, hcut] at htwice
  cases htwice

end Value

end Sqllite
