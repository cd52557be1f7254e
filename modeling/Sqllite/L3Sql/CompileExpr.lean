import Sqllite.L3Sql.Program

/-!
# Code for expressions (`compile.rs`)

A function of the source that emits into `prog` and never fails returns its code
here; its caller appends it.
-/
namespace Sqllite

/-- `n as i32`. -/
def asI32 (n : Int64) : Int := n.toInt32.toInt

/-- The opcode `compile_expr` takes for an operator. -/
def BinaryOp.opcode : BinaryOp → Opcode
  | .add => .add
  | .sub => .subtract
  | .mul => .multiply
  | .div => .divide
  | .mod => .remainder
  | .concat => .concat
  | .and => .and
  | .or => .or
  | .eq => .eq
  | .notEq => .ne
  | .lt => .lt
  | .le => .le
  | .gt => .gt
  | .ge => .ge
  | _ => .eq

/-- The opcode `compile_expr` takes for an operator. -/
def UnaryOp.opcode : UnaryOp → Opcode
  | .not => .not
  | .minus => .subtract
  | _ => .not

/-- mirrors sqllite-core/src/compile.rs:471-570 -/
def compileExpr : Expr → Int → List Insn
  | .null, reg => [{ opcode := .null, p1 := reg }]
  | .integer n, reg => [{ opcode := .integer, p1 := reg, p2 := asI32 n }]
  | .real r, reg => [{ opcode := .real, p1 := reg, p4 := .real r }]
  | .string s, reg => [{ opcode := .string, p1 := reg, p4 := .string s }]
  | .binaryOp op left right, reg =>
    compileExpr left (reg + 1) ++ compileExpr right (reg + 2) ++
      [{ opcode := op.opcode, p1 := reg, p2 := reg + 1, p3 := reg + 2 }]
  | .unaryOp op expr, reg =>
    compileExpr expr (reg + 1) ++ [{ opcode := op.opcode, p1 := reg, p2 := reg + 1 }]
  | _, reg => [{ opcode := .null, p1 := reg }]

/-- An operator with its operands. -/
def Expr.isOperator : Expr → Bool
  | .binaryOp _ _ _ => true
  | .unaryOp _ _ => true
  | _ => false

/-- The cases of `compile_expr`: an operator is compiled behind its operands. -/
@[elab_as_elim]
theorem Expr.operator_induct {motive : Expr → Prop}
    (binaryOp : ∀ op l r, motive l → motive r → motive (.binaryOp op l r))
    (unaryOp : ∀ op e, motive e → motive (.unaryOp op e))
    (atom : ∀ e, e.isOperator = false → motive e) (e : Expr) : motive e :=
  match e with
  | .binaryOp op l r => binaryOp op l r (operator_induct binaryOp unaryOp atom l) (operator_induct binaryOp unaryOp atom r)
  | .unaryOp op e => unaryOp op e (operator_induct binaryOp unaryOp atom e)
  | .null => atom _ rfl
  | .integer _ => atom _ rfl
  | .real _ => atom _ rfl
  | .string _ => atom _ rfl
  | .blob _ => atom _ rfl
  | .ident _ => atom _ rfl
  | .qualifiedIdent _ _ => atom _ rfl
  | .function _ _ _ => atom _ rfl
  | .star => atom _ rfl
  | .qualifiedStar _ => atom _ rfl
  | .isNull _ => atom _ rfl
  | .isNotNull _ => atom _ rfl
  | .between _ _ _ => atom _ rfl
  | .inList _ _ => atom _ rfl
  | .case _ _ _ => atom _ rfl
  | .cast _ _ => atom _ rfl
  | .collate _ _ => atom _ rfl
  | .bind _ => atom _ rfl

/-- mirrors sqllite-core/src/compile.rs:412-435 -/
def compileExprWithColumns (expr : Expr) (table : Option Schema.Table) (cursor destReg : Int) :
    List Insn :=
  match table, expr with
  | some table, .ident name =>
    match table.columnIndex name with
    | some idx => [{ opcode := .column, p1 := destReg, p2 := cursor, p3 := idx }]
    | none => compileExpr expr destReg
  | _, _ => compileExpr expr destReg

/-- The opcode `compile_where_expr` takes for an operator. -/
def BinaryOp.whereOpcode : BinaryOp → Opcode
  | .eq => .eq
  | .notEq => .ne
  | .lt => .lt
  | .le => .le
  | .gt => .gt
  | .ge => .ge
  | _ => .eq

/-- mirrors sqllite-core/src/compile.rs:437-469 -/
def compileWhereExpr (expr : Expr) (table : Schema.Table) (cursor destReg : Int) : List Insn :=
  match expr with
  | .binaryOp op left right =>
    compileExprWithColumns left (some table) cursor (destReg + 1) ++
      compileExpr right (destReg + 2) ++
      [{ opcode := op.whereOpcode, p1 := destReg, p2 := destReg + 1, p3 := destReg + 2 }]
  | _ => compileExprWithColumns expr (some table) cursor destReg

end Sqllite
