import Sqllite.L3Sql.Compile
import Sqllite.L4Vdbe.CountStar

/-!
# The code of expressions

Whatever an expression is compiled for (a value of an `INSERT`, an assignment, a condition, a
column of a `SELECT`), its code is made of the same instructions: literals, columns of the
cursors in scope, and opcodes that combine two registers. It goes straight on, and it writes
to the register it is compiled for and those behind it (`Valued`).
-/
namespace Sqllite
open Lib.Run Vdbe

/-- An instruction of the code of an expression: it stores one value in its register. -/
def Insn.isValue (insn : Insn) : Bool :=
  match insn.opcode, insn.p4 with
  | .null, _ | .integer, _ | .column, _ | .real, .real _ | .string, .string _ => true
  | op, _ => isBinary op

/-- Code of expressions over some cursors, for registers from `low` on. -/
def Valued (cursors : List Int) (low : Int) (code : List Insn) : Prop :=
  ∀ insn ∈ code, insn.isValue = true ∧ (insn.opcode = .column → insn.p2 ∈ cursors) ∧ low ≤ insn.p1

variable {cursors : List Int} {low : Int} {code code' : List Insn}

theorem Valued.nil : Valued cursors low [] := fun _ h => absurd h List.not_mem_nil

theorem Valued.append (h : Valued cursors low code) (h' : Valued cursors low code') :
    Valued cursors low (code ++ code') := by
  intro insn hmem
  rcases List.mem_append.mp hmem with hm | hm
  · exact h insn hm
  · exact h' insn hm

theorem Valued.mono {low' : Int} (h : Valued cursors low code) (hle : low' ≤ low) : Valued cursors low' code :=
  fun insn hmem => ⟨(h insn hmem).1, (h insn hmem).2.1, Int.le_trans hle (h insn hmem).2.2⟩

theorem Valued.literal {insn : Insn} (h : insn.isValue = true) (hno : decide (insn.opcode = .column) = false) :
    Valued cursors insn.p1 [insn] := by
  intro i hi
  rw [List.mem_singleton.mp hi]
  exact ⟨h, fun hcolumn => absurd hcolumn (of_decide_eq_false hno), Int.le_refl _⟩

theorem Valued.column {reg cursor i : Int} (h : cursor ∈ cursors) :
    Valued cursors reg [{ opcode := .column, p1 := reg, p2 := cursor, p3 := i }] := by
  intro insn hmem
  rw [List.mem_singleton.mp hmem]
  exact ⟨rfl, fun _ => h, Int.le_refl _⟩

theorem Valued.binary {insn : Insn} (h : isBinary insn.opcode = true) : Valued cursors insn.p1 [insn] := by
  obtain ⟨op, p1, p2, p3, p4, p5⟩ := insn
  cases op <;> first | exact .literal rfl rfl | cases h

/-- Two operands and what combines them. -/
theorem Valued.combine {reg : Int} {insn : Insn} (hl : Valued cursors (reg + 1) code) (hr : Valued cursors (reg + 2) code')
    (h : isBinary insn.opcode = true) (hreg : insn.p1 = reg) : Valued cursors reg (code ++ code' ++ [insn]) := by
  refine ((hl.mono (by omega)).append (hr.mono (by omega))).append ?_
  rw [← hreg]
  exact .binary h

theorem valued_compileExpr (e : Expr) : ∀ reg : Int, Valued cursors reg (compileExpr e reg) := by
  induction e using Expr.operator_induct with
  | binaryOp op l r ihl ihr => exact fun reg => .combine (ihl _) (ihr _) (isBinary_opcode op) rfl
  | unaryOp op e ih =>
    exact fun reg => ((ih (reg + 1)).mono (by omega)).append (.binary (isBinary_unary op))
  | atom e h => cases e <;> first | exact fun _ => .literal rfl rfl | cases h

theorem valued_compileExprWithColumns (e : Expr) (table : Option Schema.Table) {cursor : Int}
    (h : cursor ∈ cursors) (reg : Int) : Valued cursors reg (compileExprWithColumns e table cursor reg) := by
  unfold compileExprWithColumns
  split
  · split
    · exact .column h
    · exact valued_compileExpr _ _
  · exact valued_compileExpr _ _

theorem isBinary_whereOpcode (op : BinaryOp) : isBinary op.whereOpcode = true := by cases op <;> rfl

theorem valued_compileWhereExpr (e : Expr) (table : Schema.Table) {cursor : Int} (h : cursor ∈ cursors) (reg : Int) :
    Valued cursors reg (compileWhereExpr e table cursor reg) := by
  unfold compileWhereExpr
  split
  · exact .combine (valued_compileExprWithColumns _ _ h _) (valued_compileExpr _ _) (isBinary_whereOpcode _) rfl
  · exact valued_compileExprWithColumns _ _ h _

theorem valued_compileValues : ∀ (reg : Int) (exprs : List Expr), Valued cursors reg (compileValues reg exprs)
  | _, [] => .nil
  | reg, e :: exprs => (valued_compileExpr e reg).append ((valued_compileValues (reg + 1) exprs).mono (by omega))

section
variable [Unicode] {schema : Schema} {tables : List TableBinding}

theorem valued_compileColumnOrExpr (hcur : ∀ col, cursorOf tables col ∈ cursors) (e : Expr) (reg : Int) :
    Valued cursors reg (compileColumnOrExpr e schema tables reg) := by
  unfold compileColumnOrExpr
  split
  · exact .column (hcur _)
  · exact valued_compileExpr e reg

theorem valued_compilePred (hcur : ∀ col, cursorOf tables col ∈ cursors) (e : Expr) (reg : Int) :
    Valued cursors reg (compilePred e schema tables reg) := by
  unfold compilePred
  split
  · exact .combine (valued_compileColumnOrExpr hcur _ _) (valued_compileColumnOrExpr hcur _ _) (isBinary_predOpcode _) rfl
  · exact valued_compileColumnOrExpr hcur e reg

theorem valued_loadSources (hcur : ∀ col, cursorOf tables col ∈ cursors) : ∀ (reg : Int) (sources : List RowSource),
    Valued cursors reg (loadSources tables schema reg sources)
  | _, [] => .nil
  | reg, src :: sources => by
    refine Valued.append ?_ ((valued_loadSources hcur (reg + 1) sources).mono (by omega))
    cases src with
    | column col => exact .column (hcur col)
    | expr e => exact valued_compileColumnOrExpr hcur e reg

end

theorem valued_compileUpdate_assignments (update : Update) (table : Schema.Table) :
    Valued [0] 2 (update.assignments.flatMap (compileAssignment table)) := by
  intro insn hmem
  obtain ⟨assignment, -, hmem⟩ := List.mem_flatMap.mp hmem
  unfold compileAssignment at hmem
  split at hmem
  · exact (valued_compileExprWithColumns _ _ List.mem_cons_self _).mono (by omega) insn hmem
  · cases hmem

end Sqllite
