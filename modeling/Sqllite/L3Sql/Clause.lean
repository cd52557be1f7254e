import Sqllite.Lib.Kleene
import Sqllite.L3Sql.CompileSelect

/-!
# What a condition means

`Expr.Clause` are the conditions built from AND, OR, NOT and the comparisons over
columns and literals. `Expr.value3` is their value under three-valued logic: a
comparison with NULL is unknown, every other one goes by `Value::compare`, and
unknown is NULL where a truth value is used as a value. This is the meaning that
the code for a condition is compared with; it is not translated from the source.
-/
namespace Sqllite
open Lib

/-! ## Truth -/

/-- The truth of a value: NULL is unknown, a nonzero number true. -/
def Value.truth (v : Value) : Option Bool := if v.isNull then none else some v.nonzero

/-- The value of a truth: NULL for unknown. -/
def Value.ofTruth : Option Bool → Value
  | none => .null
  | some b => Value.ofBool b

@[simp] theorem Value.truth_null : Value.truth .null = none := rfl

@[simp] theorem Value.truth_ofTruth (t : Option Bool) : (Value.ofTruth t).truth = t := by
  rcases t with _ | b
  · rfl
  · simp [Value.ofTruth, Value.truth]

theorem Value.truth_eq_true {v : Value} : v.truth = some true ↔ v.nonzero = true := by
  cases v <;> simp [Value.truth, Value.isNull]

def BinaryOp.isComparison : BinaryOp → Bool
  | .eq | .notEq | .lt | .le | .gt | .ge => true
  | _ => false

/-- Whether an order of two values satisfies a comparison. -/
def BinaryOp.admits : BinaryOp → Ordering → Bool
  | .eq, o => o = .eq
  | .notEq, o => o ≠ .eq
  | .lt, o => o = .lt
  | .le, o => o ≠ .gt
  | .gt, o => o = .gt
  | .ge, o => o ≠ .lt
  | _, _ => false

/-- A comparison: unknown with NULL. -/
def compare3 (op : BinaryOp) (a b : Value) : Option Bool :=
  if a.isNull || b.isNull then none else some (op.admits (a.compare b))

/-! ## Conditions -/

/-- The column an identifier names, with or without the name of its table. -/
abbrev Names := Option String → String → Option Nat

/-- A value of a row, NULL behind its end. -/
def cell (row : List Value) (i : Option Nat) : Value := (i.bind (row[·]?)).getD .null

namespace Expr

/-- A condition over the columns of a table: AND, OR, NOT and comparisons, in any
nesting, of columns, strings, NULL and 32-bit integers. -/
inductive Clause (names : Names) : Expr → Prop
  | null : Clause names .null
  | integer {n : Int64} (h : -2 ^ 31 ≤ n.toInt ∧ n.toInt < 2 ^ 31) : Clause names (.integer n)
  | string (s : String) : Clause names (.string s)
  | ident {c : String} (h : (names none c).isSome) : Clause names (.ident c)
  | qualified {t c : String} (h : (names (some t) c).isSome) : Clause names (.qualifiedIdent t c)
  | not {e : Expr} (h : Clause names e) : Clause names (.unaryOp .not e)
  | binary {op : BinaryOp} {l r : Expr} (h : op = .and ∨ op = .or ∨ op.isComparison = true)
      (hl : Clause names l) (hr : Clause names r) : Clause names (.binaryOp op l r)

/-- The value of a condition on a row, under three-valued logic. -/
def value3 (names : Names) (row : List Value) : Expr → Value
  | .integer n => .integer n
  | .string s => .text s
  | .ident c => cell row (names none c)
  | .qualifiedIdent t c => cell row (names (some t) c)
  | .unaryOp .not e => Value.ofTruth (Kleene.not (value3 names row e).truth)
  | .binaryOp .and l r =>
    Value.ofTruth (Kleene.and (value3 names row l).truth (value3 names row r).truth)
  | .binaryOp .or l r =>
    Value.ofTruth (Kleene.or (value3 names row l).truth (value3 names row r).truth)
  | .binaryOp op l r => Value.ofTruth (compare3 op (value3 names row l) (value3 names row r))
  | _ => .null

/-- The condition is true on the row. -/
def holds3 (names : Names) (row : List Value) (w : Expr) : Bool :=
  (w.value3 names row).truth = some true

end Expr

/-! ## The columns of one table -/

/-- The columns of a table under the names a statement knows it by. -/
def Schema.Table.names (t : Schema.Table) (tb : TableBinding) : Names := fun qualifier column =>
  match qualifier with
  | none => t.columnIndex column
  | some q =>
    if eqIgnoreAsciiCase tb.name q || eqIgnoreAsciiCase tb.alias q then t.columnIndex column else none

section
variable [Unicode] {schema : Schema} {t : Schema.Table} {tb : TableBinding}

theorem resolveExprColumn_ident (ht : schema.table tb.name = some t) (c : String) :
    (resolveExprColumn (.ident c) schema [tb]).toOption =
      (t.names tb none c).map fun i => { tableIdx := 0, colIdx := i } := by
  simp only [resolveExprColumn, findColumn, boundColumn, ht, Option.bind_some, Schema.Table.names]
  cases t.columnIndex c <;> rfl

theorem resolveExprColumn_qualified (ht : schema.table tb.name = some t) (q c : String) :
    (resolveExprColumn (.qualifiedIdent q c) schema [tb]).toOption =
      (t.names tb (some q) c).map fun i => { tableIdx := 0, colIdx := i } := by
  simp only [resolveExprColumn, findTableIndex, Schema.Table.names, List.findIdx?_cons,
    List.findIdx?_nil]
  by_cases hq : (eqIgnoreAsciiCase tb.name q || eqIgnoreAsciiCase tb.alias q) = true
  · simp only [hq, if_true, Lib.Run.Res.ok_bind, List.getElem?_cons_zero, Option.bind_some,
      boundColumn, ht]
    cases t.columnIndex c <;> rfl
  · simp only [hq]
    rfl

end

end Sqllite
