import Sqllite.L1Encoding.Record
import Mathlib.Data.Nat.Log

/-!
# Conversions and comparison of values (`types.rs`)

A real in a `Value` is a bit pattern; its arithmetic, comparison and rounding
are those of Lean's `Float` on the same bits. What Rust's standard library
writes and reads as the decimal text of a number is spelled out: `Display` of an
`f64` is the shortest decimal that reads back as the same number, without an
exponent.
-/
namespace Sqllite
open Lib.Span

/-! ## Numbers and their texts -/

/-- `i as f64`. -/
def i64AsF64 (i : Int64) : Float :=
  if i < 0 then -(UInt64.ofNat i.toInt.natAbs).toFloat else (UInt64.ofNat i.toInt.natAbs).toFloat

/-- `r as i64`: towards zero, saturating, and 0 for NaN. -/
def f64AsI64 (r : Float) : Int64 :=
  if r < 0 then Int64.ofInt (-(min (-r).toUInt64.toNat (2 ^ 63) : Nat))
  else Int64.ofInt (min r.toUInt64.toNat (2 ^ 63 - 1) : Nat)

/-- `a.partial_cmp(&b)` on `f64`. -/
def partialCmp (a b : Float) : Option Ordering :=
  if a < b then some .lt else if b < a then some .gt else if a == b then some .eq else none

/-- The value of a run of decimal digits, `none` for any other text. -/
def digits? (cs : List Char) : Option Nat :=
  if cs ≠ [] ∧ cs.all Char.isDigit then some (cs.foldl (fun n c => 10 * n + (c.toNat - 48)) 0)
  else none

/-- A sign in front of a number. -/
def splitSign : List Char → Bool × List Char
  | '-' :: cs => (true, cs)
  | '+' :: cs => (false, cs)
  | cs => (false, cs)

/-- `s.parse::<i64>()`. -/
def parseI64 (s : String) : Option Int64 := do
  let (neg, cs) := splitSign s.toList
  let n ← digits? cs
  let i : Int := if neg then -n else n
  if -2 ^ 63 ≤ i ∧ i < 2 ^ 63 then some (Int64.ofInt i) else none

/-- `m * 10^e`, rounded; far out of range it is infinite or zero. -/
def scaled (m : Nat) (e : Int) : Float :=
  if m = 0 then 0
  else if e > 400 then Float.ofBits 0x7ff0000000000000
  else if e + (Nat.log 10 m + 1) < -400 then 0
  else Float.ofScientific m (e < 0) e.natAbs

/-- Digits with an optional point and an optional exponent. -/
def parseDecimal (cs : List Char) : Option Float := do
  let (mantissa, rest) := cs.span fun c => c ≠ 'e' ∧ c ≠ 'E'
  let exponent ← match rest with
    | [] => some 0
    | _ :: cs => do
      let (neg, cs) := splitSign cs
      let n ← digits? cs
      pure (if neg then -(n : Int) else n)
  let (whole, point) := mantissa.span (· ≠ '.')
  let fraction := point.drop 1
  let m ← digits? (whole ++ fraction)
  pure (scaled m (exponent - fraction.length))

/-- `s.parse::<f64>()`. -/
def parseF64 (s : String) : Option Float := do
  let (neg, cs) := splitSign s.toList
  let lower := String.ofList (cs.map Char.toLower)
  let r ←
    if lower = "inf" ∨ lower = "infinity" then some (Float.ofBits 0x7ff0000000000000)
    else if lower = "nan" then some (Float.ofBits 0x7ff8000000000000)
    else parseDecimal cs
  pure (if neg then -r else r)

/-- The decimals of `n` significant digits around `num / den`, the closer one first. -/
def candidates (num den n : Nat) : List (Nat × Int) :=
  let e : Int :=
    (if den ≤ num then (Nat.log 10 (num / den) : Int) else -(Nat.log 10 (den / num) : Int) - 1)
      - (n - 1)
  let (num, den) := if e < 0 then (num * 10 ^ e.natAbs, den) else (num, den * 10 ^ e.natAbs)
  let m := num / den
  if 2 * (num - m * den) ≤ den then [(m, e), (m + 1, e)] else [(m + 1, e), (m, e)]

/-- The shortest decimal that reads as `r`, for a finite positive `r`. -/
def shortest (r : Float) : Nat × Int :=
  let bits := r.toBits.toNat
  let (m, e) := if bits / 2 ^ 52 = 0 then (bits, 1) else (2 ^ 52 + bits % 2 ^ 52, bits / 2 ^ 52)
  let all := (List.range 17).flatMap fun n => candidates (m * 2 ^ e) (2 ^ 1075) (n + 1)
  (all.find? fun d => scaled d.1 d.2 == r).getD (0, 0)

/-- `m * 10^e` in full. -/
def fullDecimal (m : Nat) (e : Int) : String :=
  if 0 ≤ e then toString (m * 10 ^ e.toNat)
  else
    let k := e.natAbs
    let tail := (toString (m % 10 ^ k)).toList
    let zeros := List.replicate (k - tail.length) '0'
    let frac := (zeros ++ tail).reverse.dropWhile (· = '0') |>.reverse
    if frac = [] then toString (m / 10 ^ k)
    else toString (m / 10 ^ k) ++ "." ++ String.ofList frac

/-- `r.to_string()`. -/
def displayF64 (r : Float) : String :=
  if r.isNaN then "NaN"
  else
    let neg := r.toBits.toNat ≥ 2 ^ 63
    let a := if neg then -r else r
    (if neg then "-" else "") ++
      (if a.isInf then "inf"
      else if a == 0 then "0"
      else fullDecimal (shortest a).1 (shortest a).2)

/-! ## Values -/

/-- mirrors sqllite-core/src/types.rs:5-14 -/
inductive Affinity where
  | text | numeric | integer | real | blob
  deriving DecidableEq, Repr

/-- mirrors sqllite-core/src/types.rs:27-35 -/
def Affinity.asChar : Affinity → Char
  | .text => 't'
  | .numeric => 'n'
  | .integer => 'i'
  | .real => 'r'
  | .blob => 'b'

namespace Value

/-- mirrors sqllite-core/src/types.rs:55-57 -/
def isNull : Value → Bool
  | .null => true
  | _ => false

/-- mirrors sqllite-core/src/types.rs:59-66 -/
def asInteger : Value → Option Int64
  | .integer i => some i
  | .real r => some (f64AsI64 (Float.ofBits r))
  | .text s => parseI64 s
  | _ => none

/-- mirrors sqllite-core/src/types.rs:68-75 -/
def asReal : Value → Option Float
  | .integer i => some (i64AsF64 i)
  | .real r => some (Float.ofBits r)
  | .text s => parseF64 s
  | _ => none

/-- mirrors sqllite-core/src/types.rs:77-85 -/
def asText : Value → Option String
  | .text s => some s
  | _ => none

/-- `format!("{:.0}", r)` for a whole `r`. -/
def wholeText (r : Float) : String :=
  if r == 0 ∧ r.toBits ≠ 0 then "-0" else toString (f64AsI64 r)

/-- mirrors sqllite-core/src/types.rs:87-101 -/
def toText : Value → String
  | .null => ""
  | .integer i => toString i
  | .real bits =>
    let r := Float.ofBits bits
    if r.abs < 9007199254740992 ∧ i64AsF64 (f64AsI64 r) == r then wholeText r else displayF64 r
  | .text s => s
  | .blob b => fromUtf8Lossy b

/-- mirrors sqllite-core/src/types.rs:113-132 -/
def compare (a b : Value) : Ordering :=
  match a, b with
  | .null, .null => .eq
  | .null, _ => .lt
  | _, .null => .gt
  | .integer a, .integer b => Ord.compare a b
  | .integer a, .real b => (partialCmp (i64AsF64 a) (Float.ofBits b)).getD .eq
  | .real a, .integer b => (partialCmp (Float.ofBits a) (i64AsF64 b)).getD .eq
  | .real a, .real b => (partialCmp (Float.ofBits a) (Float.ofBits b)).getD .eq
  | .text a, .text b => Ord.compare (asBytes a) (asBytes b)
  | .blob a, .blob b => Ord.compare a b
  | a, b => Ord.compare (asBytes a.toText) (asBytes b.toText)

/-- `v.as_integer().unwrap_or(0) != 0`. -/
def nonzero (v : Value) : Bool := v.asInteger.getD 0 != 0

@[simp] theorem isNull_null : isNull .null = true := rfl

@[simp] theorem isNull_integer (i : Int64) : isNull (.integer i) = false := rfl

theorem isNull_iff {v : Value} : v.isNull = true ↔ v = .null := by
  cases v <;> simp [isNull]

/-- `Value::Integer(b as i64)`. -/
def ofBool (b : Bool) : Value := .integer (if b then 1 else 0)

@[simp] theorem isNull_ofBool (b : Bool) : (ofBool b).isNull = false := rfl

@[simp] theorem nonzero_null : nonzero .null = false := rfl

@[simp] theorem nonzero_ofBool (b : Bool) : (ofBool b).nonzero = b := by
  cases b <;> decide

end Value

end Sqllite
