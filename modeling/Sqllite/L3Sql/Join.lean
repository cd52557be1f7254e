import Mathlib.Data.List.Induction
import Sqllite.L3Sql.Clause

/-!
# What a join means

The FROM clause `t0 JOIN t1 ON c1 JOIN t2 ON c2 ..`, the tuples of rows it ranges
over, and what a `SELECT` over it says: of the tuples, in the order of nested
loops, those that satisfy the conditions, projected to the result columns. This is
the meaning that the code is compared with; it is not translated from the source.

* `collectFrom_chain`: the tables and the join that the compiler finds.
-/
namespace Sqllite
open Lib.Run

/-! ## FROM clauses -/

/-- A table of a FROM clause. -/
structure FromTable where
  name : String
  «alias» : Option String

/-- `JOIN table ON on`. -/
structure JoinTerm where
  table : FromTable
  on : Expr

/-- `first JOIN t1 ON c1 JOIN t2 ON c2 ..`, as the parser nests it. -/
def joinChain (first : FromTable) (rest : List JoinTerm) : TableRef Select :=
  rest.foldl (fun left j => .join left (.table j.table.name j.table.alias) .inner (some j.on))
    (.table first.name first.alias)

/-- The table with its cursor. -/
def FromTable.bind (i : Nat) (t : FromTable) : TableBinding :=
  { name := t.name, «alias» := t.alias.getD t.name, cursor := i }

/-- The tables with their cursors, from 0 on. -/
def bindings (tables : List FromTable) : List TableBinding := tables.mapIdx FromTable.bind

/-- The tables of the clause. -/
def chainTables (first : FromTable) (rest : List JoinTerm) : List FromTable :=
  first :: rest.map (·.table)

theorem bindings_append (tables : List FromTable) (t : FromTable) :
    bindings (tables ++ [t]) = bindings tables ++ [t.bind tables.length] := by
  simp [bindings]

theorem chainTables_append (first : FromTable) (rest : List JoinTerm) (j : JoinTerm) :
    chainTables first (rest ++ [j]) = chainTables first rest ++ [j.table] := by
  simp [chainTables]

theorem joinChain_append (first : FromTable) (rest : List JoinTerm) (j : JoinTerm) :
    joinChain first (rest ++ [j]) =
      .join (joinChain first rest) (.table j.table.name j.table.alias) .inner (some j.on) := by
  simp [joinChain]

section
variable [Unicode] {schema : Schema}

theorem collectFrom_table {t : FromTable} (ht : (schema.table t.name).isSome)
    (tables : List TableBinding) (join : Option JoinInfo) (n : Nat) :
    collectFrom schema (.table t.name t.alias) tables join n =
      .ok (tables ++ [t.bind n], join, ((n + 1 : Nat) : Int)) := by
  obtain ⟨table, htable⟩ := Option.isSome_iff_exists.mp ht
  simp only [collectFrom, htable]
  rfl

/-- Each table gets the next cursor; of the conditions the last one is kept. -/
theorem collectFrom_chain {first : FromTable} (rest : List JoinTerm)
    (h : ∀ t ∈ chainTables first rest, (schema.table t.name).isSome) :
    collectFrom schema (joinChain first rest) [] none 0 =
      .ok (bindings (chainTables first rest),
        rest.getLast?.map fun j => { joinType := .inner, on := some j.on },
        ((rest.length + 1 : Nat) : Int)) := by
  induction rest using List.reverseRecOn with
  | nil => exact collectFrom_table (h first List.mem_cons_self) [] none 0
  | append_singleton rest j ih =>
    rw [chainTables_append] at h
    have hrest := ih fun t ht => h t (List.mem_append_left _ ht)
    have hlast : (schema.table j.table.name).isSome :=
      h j.table (List.mem_append_right _ List.mem_cons_self)
    have hlen : (chainTables first rest).length = rest.length + 1 := by simp [chainTables]
    rw [joinChain_append, collectFrom, hrest, Res.ok_bind]
    simp only [collectFrom_table hlast, Res.ok_bind, List.getLast?_append, chainTables_append,
      bindings_append, hlen, List.length_append, List.length_singleton]
    rfl

end

/-! ## Values -/

/-- The value of a column in a tuple of rows, one for each table; NULL behind the
end of its row. -/
def ColumnRef.value (c : ColumnRef) (t : List (List Value)) : Value :=
  cell (t[c.tableIdx]?.getD []) (some c.colIdx)

namespace Expr

/-- The value of a literal. -/
def literal : Expr → Option Value
  | .null => some .null
  | .integer n => some (.integer n)
  | .real r => some (.real r)
  | .string s => some (.text s)
  | .blob b => some (.blob b)
  | _ => none

variable [Unicode] (schema : Schema) (tables : List TableBinding)

/-- The column an expression names. -/
def columnIn (e : Expr) : Option ColumnRef := (resolveExprColumn e schema tables).toOption

/-- The value of a column or a literal in a tuple. -/
def valueIn (t : List (List Value)) (e : Expr) : Value :=
  match e.columnIn schema tables with
  | some c => c.value t
  | none => e.literal.getD .null

/-- A column, or a literal: a 32-bit integer, a string or NULL. -/
def Comparand (e : Expr) : Prop :=
  (e.columnIn schema tables).isSome ∨ e = .null ∨ (∃ s, e = .string s) ∨
    ∃ n, e = .integer n ∧ -2 ^ 31 ≤ n.toInt ∧ n.toInt < 2 ^ 31

/-- One comparison among `=`, `<>`, `<` and `>`. -/
inductive Comparison : Expr → Prop
  | mk {op : BinaryOp} {l r : Expr} (hop : op = .eq ∨ op = .notEq ∨ op = .lt ∨ op = .gt)
      (hl : Comparand schema tables l) (hr : Comparand schema tables r) :
      Comparison (.binaryOp op l r)

/-- The comparison holds, by `Value::compare`. -/
def satisfied (t : List (List Value)) : Expr → Bool
  | .binaryOp op l r => op.admits ((l.valueIn schema tables t).compare (r.valueIn schema tables t))
  | _ => false

end Expr

/-! ## The answer -/

/-- The tuples of nested loops over these lists: the last one runs fastest. -/
def tuples {α : Type} : List (List α) → List (List α)
  | [] => [[]]
  | l :: ls => l.flatMap fun a => (tuples ls).map (a :: ·)

theorem tuples_empty {α β : Type} : ∀ rows : List α, tuples (rows.map fun _ => [([] : List β)]) =
    [rows.map fun _ => []]
  | [] => rfl
  | _ :: rows => by
    rw [List.map_cons, tuples, tuples_empty rows]
    rfl

/-- The tuples that two loops go through: where there are more than two tables, the
others have only an empty row. -/
def looped (rows : List (List (List Value))) : List (List (List Value)) :=
  tuples (rows.take 2 ++ (rows.drop 2).map fun _ => [[]])

theorem looped_eq_tuples {rows : List (List (List Value))} (h : rows.length ≤ 2) :
    looped rows = tuples rows := by
  rw [looped, List.take_of_length_le h, List.drop_eq_nil_of_le h, List.map_nil, List.append_nil]

theorem looped_one (r : List (List Value)) : looped [r] = r.map ([·]) :=
  List.flatMap_pure_eq_map _ r

theorem looped_two (r r' : List (List Value)) (rows : List (List (List Value))) :
    looped (r :: r' :: rows) =
      r.flatMap fun a => r'.map fun b => a :: b :: rows.map fun _ => [] := by
  have hinner : ∀ a : List Value, (tuples (r' :: rows.map fun _ => [[]])).map (a :: ·) =
      r'.map fun b => a :: b :: rows.map fun _ => [] := fun a => by
    rw [tuples, tuples_empty, List.map_flatMap]
    exact List.flatMap_pure_eq_map _ r'
  exact List.flatMap_congr fun a _ => hinner a

namespace Select

/-- The conditions of a statement: those of its joins, then its WHERE clause. -/
def conditions (select : Select) (rest : List JoinTerm) : List Expr :=
  rest.map (·.on) ++ select.whereClause.toList

variable [Unicode] (schema : Schema) (tables : List TableBinding)

/-- The values of one entry of the select list; `*` are the columns of the only table. -/
def projectColumn (t : List (List Value)) (col : ResultColumn) : List Value :=
  match col.expr, tables with
  | .star, [tb] =>
    (List.range (((schema.table tb.name).map (·.columnCount)).getD 0)).map fun c =>
      cell (t[0]?.getD []) (some c)
  | e, _ => [e.valueIn schema tables t]

/-- The result row of a tuple. -/
def project (select : Select) (t : List (List Value)) : List Value :=
  select.columns.flatMap (projectColumn schema tables t)

/-- The rows of the answer: of the tuples those that satisfy every condition, projected. -/
def joined (select : Select) (rest : List JoinTerm) (rows : List (List (List Value))) :
    List (List Value) :=
  ((tuples rows).filter fun t =>
    (select.conditions rest).all (Expr.satisfied schema tables t)).map (select.project schema tables)

end Select

end Sqllite
