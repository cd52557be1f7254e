import Sqllite.L3Sql.Clause
import Sqllite.L4Vdbe.Exec

/-!
# Running the code of a condition

Code without jumps computes a value into a register and leaves those below it
alone: `Computes`. `compileExpr` never reads a column, so the code for an
expression below the top operator of a condition computes `Expr.blank`, and
`compilePred` computes `Expr.verdict`.

* `compileExpr_computes`, `compilePred_computes`
-/
namespace Sqllite
open Lib Lib.Run Lib.Machine

/-- The statement at another address with other registers. -/
def Machine.moveTo (s : Machine) (pc : Nat) (regs : List Value) : Machine :=
  { s with pc := pc, regs := regs }

section
variable {s t : Machine} {pc : Nat} {regs : List Value}

@[simp] theorem Machine.moveTo_pc : (s.moveTo pc regs).pc = pc := rfl
@[simp] theorem Machine.moveTo_regs : (s.moveTo pc regs).regs = regs := rfl
@[simp] theorem Machine.moveTo_program : (s.moveTo pc regs).program = s.program := rfl
@[simp] theorem Machine.moveTo_cursors : (s.moveTo pc regs).cursors = s.cursors := rfl
@[simp] theorem Machine.moveTo_pager : (s.moveTo pc regs).pager = s.pager := rfl

theorem Machine.moveTo_self : s.moveTo s.pc s.regs = s := rfl

end

namespace Vdbe

variable {s t : Machine} {insn : Insn} {fuel : Nat}

/-! ## Single instructions -/

theorem getReg_nat (s : Machine) (r : Nat) : getReg s r = regAt s.regs r := by
  unfold getReg
  rw [if_neg (by omega), Int.toNat_natCast]

theorem answer_nat (r : Nat) (v : Value) :
    answer r v s = .ok .continue (s.moveTo s.pc (putReg s.regs r v)) := by
  unfold answer setReg
  rw [if_neg (by omega), bind_ok (modify_apply _ _)]
  rfl

/-! ## Registers -/

theorem putReg_self (regs : List Value) (i : Nat) (v : Value) : (putReg regs i v)[i]? = some v := by
  unfold putReg
  by_cases hi : i < regs.length
  · rw [if_pos hi, List.getElem?_set_self hi]
  · rw [if_neg hi, List.getElem?_append_right (by simp; omega)]
    have hlen : i - (regs ++ List.replicate (i - regs.length) Value.null).length = 0 := by
      rw [List.length_append, List.length_replicate]
      omega
    rw [hlen]
    rfl

theorem putReg_of_ne {regs : List Value} {i j : Nat} {w : Value} (h : regs[j]? = some w) (v : Value)
    (hne : j ≠ i) : (putReg regs i v)[j]? = some w := by
  obtain ⟨hj, hw⟩ := List.getElem?_eq_some_iff.mp h
  unfold putReg
  by_cases hi : i < regs.length
  · rw [if_pos hi, List.getElem?_set_ne (Ne.symm hne), h]
  · rw [if_neg hi, List.append_assoc, List.getElem?_append_left hj, h]

/-- The registers below are still there. -/
theorem reg_of_low {regs regs' : List Value} {r j : Nat} {v w : Value} (hv : regs'[r]? = some v) (hj : j < r)
    (hlow : regAt regs' j = regAt regs j) (hw : regs[j]? = some w) : regs'[j]? = some w := by
  have hr := (List.getElem?_eq_some_iff.mp hv).1
  have hsome := List.getElem?_eq_getElem (Nat.lt_trans hj hr)
  unfold regAt at hlow
  rw [hsome, hw] at hlow
  exact hsome.trans (congrArg some hlow)

/-! ## Rounds -/

variable [Unicode]

theorem round_continue (h : s.program.insns[s.pc]? = some insn)
    (hex : execute fuel insn (s.moveTo (s.pc + 1) s.regs) = .ok .continue t) :
    round fuel s = .ok none t := by
  unfold round
  rw [bind_ok (get_apply s), h]
  exact bind_ok hex _

theorem round_row (h : s.program.insns[s.pc]? = some insn)
    (hex : execute fuel insn (s.moveTo (s.pc + 1) s.regs) = .ok .row t) :
    round fuel s = .ok (some .row) t := by
  unfold round
  rw [bind_ok (get_apply s), h]
  exact bind_ok hex _

theorem round_halt (h : s.program.insns[s.pc]? = some { opcode := .halt }) :
    round fuel s = .ok (some .done) { s.moveTo (s.pc + 1) s.regs with
      halted := true, haltCode := .ok, haltMessage := "" } := by
  unfold round
  rw [bind_ok (get_apply s), h]
  rfl

theorem round_error {e : Fault SqlliteError} (h : s.program.insns[s.pc]? = some insn)
    (hex : execute fuel insn (s.moveTo (s.pc + 1) s.regs) = .error e t) :
    round fuel s = .error e t := by
  unfold round
  rw [bind_ok (get_apply s), h]
  exact bind_error hex _

/-- An instruction that only stores a value. -/
theorem reaches_answer (h : s.program.insns[s.pc]? = some insn) (r : Nat) (v : Value)
    (hex : ∀ fuel, execute fuel insn (s.moveTo (s.pc + 1) s.regs) =
      answer r v (s.moveTo (s.pc + 1) s.regs)) :
    Reaches round s (s.moveTo (s.pc + 1) (putReg s.regs r v)) :=
  Reaches.step fun fuel => round_continue h ((hex fuel).trans (answer_nat r v))

/-- The opcodes that store what `logic` makes of two registers. -/
def isLogic : Opcode → Bool
  | .eq | .ne | .lt | .le | .gt | .ge | .and | .or | .not => true
  | _ => false

theorem execute_logic (h : isLogic insn.opcode = true) :
    execute fuel insn s =
      answer insn.p1 (logic insn.opcode (getReg s insn.p2) (getReg s insn.p3)) s := by
  obtain ⟨op, p1, p2, p3, p4, p5⟩ := insn
  unfold execute
  rw [bind_ok (get_apply s)]
  cases op <;> first | rfl | cases h

/-! ## Code without jumps -/

/-- From where `code` stands it is run to its end, register `r` has `v` then, and
the registers below `r` are as they were. -/
def Computes (s : Machine) (code : List Insn) (r : Nat) (v : Value) : Prop :=
  ∃ regs, Reaches round s (s.moveTo (s.pc + code.length) regs) ∧ regAt regs r = v ∧
    ∀ j < r, regAt regs j = regAt s.regs j

/-- One instruction that stores a value. -/
theorem computes_one (h : Placed s.program.insns s.pc [insn]) (r : Nat) (v : Value)
    (hex : ∀ fuel, execute fuel insn (s.moveTo (s.pc + 1) s.regs) =
      answer r v (s.moveTo (s.pc + 1) s.regs)) :
    Computes s [insn] r v :=
  ⟨_, reaches_answer h.head r v hex, regAt_putReg_self _ _ _,
    fun _ hj => regAt_putReg_ne _ _ (by omega)⟩

/-- The instruction that makes one value of the two above its register. -/
def combine (op : Opcode) (r : Int) : Insn := { opcode := op, p1 := r, p2 := r + 1, p3 := r + 2 }

theorem execute_combine {op : Opcode} (hop : isLogic op = true) (r : Nat) (fuel : Nat) :
    execute fuel (combine op r) s =
      answer r (logic op (regAt s.regs (r + 1)) (regAt s.regs (r + 2))) s := by
  rw [execute_logic hop]
  show answer r (logic op (getReg s ((r + 1 : Nat) : Int)) (getReg s ((r + 2 : Nat) : Int))) s = _
  rw [getReg_nat, getReg_nat]

/-- The value is one that is there: a row can be read back from its register. -/
def Settles (s : Machine) (code : List Insn) (r : Nat) (v : Value) : Prop :=
  ∃ regs, Reaches round s (s.moveTo (s.pc + code.length) regs) ∧ regs[r]? = some v ∧
    ∀ j < r, regAt regs j = regAt s.regs j

section
variable {code : List Insn} {r : Nat} {v : Value}

theorem Settles.computes (h : Settles s code r v) : Computes s code r v := by
  obtain ⟨regs, hrun, hv, hlow⟩ := h
  exact ⟨regs, hrun, by rw [regAt, hv, Option.getD_some], hlow⟩

/-- Code that leaves the registers below alone, and an instruction that stores a value. -/
theorem settles_last {regs : List Value} (hp : Placed s.program.insns s.pc (code ++ [insn]))
    (hrun : Reaches round s (s.moveTo (s.pc + code.length) regs)) (hlow : ∀ j < r, regAt regs j = regAt s.regs j)
    (hex : ∀ fuel, execute fuel insn (s.moveTo (s.pc + code.length + 1) regs) =
      answer r v (s.moveTo (s.pc + code.length + 1) regs)) :
    Settles s (code ++ [insn]) r v := by
  have hlast := reaches_answer (s := s.moveTo (s.pc + code.length) regs) hp.right.head r v hex
  refine ⟨putReg regs r v, ?_, putReg_self regs r v, fun j hj => ?_⟩
  · rw [List.length_append, List.length_singleton, ← Nat.add_assoc]
    exact hrun.trans hlast
  · rw [regAt_putReg_ne _ _ (by omega)]
    exact hlow j hj

/-- One instruction that stores a value. -/
theorem settles_one (h : Placed s.program.insns s.pc [insn]) (r : Nat) (v : Value)
    (hex : ∀ fuel, execute fuel insn (s.moveTo (s.pc + 1) s.regs) =
      answer r v (s.moveTo (s.pc + 1) s.regs)) : Settles s [insn] r v := by
  have hp : Placed s.program.insns s.pc ([] ++ [insn]) := h
  exact settles_last hp Reaches.refl (fun _ _ => rfl) hex

/-- Two values, and the instruction that makes one of them. -/
theorem settles_combine {cl cr : List Insn} {op : Opcode} {vl vr : Value}
    (hp : Placed s.program.insns s.pc (cl ++ cr ++ [combine op r]))
    (hl : Placed s.program.insns s.pc cl → Computes s cl (r + 1) vl)
    (hr : ∀ pc regs, Placed s.program.insns pc cr → Computes (s.moveTo pc regs) cr (r + 2) vr)
    (hex : ∀ (t : Machine) fuel, regAt t.regs (r + 1) = vl → regAt t.regs (r + 2) = vr →
      execute fuel (combine op r) t = answer r v t) :
    Settles s (cl ++ cr ++ [combine op r]) r v := by
  obtain ⟨regs1, hrun1, hv1, hlow1⟩ := hl hp.left.left
  obtain ⟨regs2, hrun2, hv2, hlow2⟩ := hr (s.pc + cl.length) regs1 hp.left.right
  have hlen : s.pc + (cl ++ cr).length = s.pc + cl.length + cr.length := by
    rw [List.length_append, Nat.add_assoc]
  have hvl : regAt regs2 (r + 1) = vl := (hlow2 (r + 1) (by omega)).trans hv1
  have hrun : Reaches round s (s.moveTo (s.pc + (cl ++ cr).length) regs2) := by
    rw [hlen]
    exact hrun1.trans hrun2
  refine settles_last hp hrun (fun j hj => ?_) fun fuel => hex _ fuel hvl hv2
  exact (hlow2 j (by omega)).trans (hlow1 j (by omega))

/-- The same for a comparison or a connective. -/
theorem computes_binary {cl cr : List Insn} {op : Opcode} {vl vr : Value}
    (hop : isLogic op = true)
    (hp : Placed s.program.insns s.pc (cl ++ cr ++ [combine op r]))
    (hl : Placed s.program.insns s.pc cl → Computes s cl (r + 1) vl)
    (hr : ∀ pc regs, Placed s.program.insns pc cr → Computes (s.moveTo pc regs) cr (r + 2) vr) :
    Computes s (cl ++ cr ++ [combine op r]) r (logic op vl vr) :=
  (settles_combine hp hl hr fun t fuel hvl hvr => by rw [execute_combine hop, hvl, hvr]).computes

end

end Vdbe

/-! ## Expressions -/

namespace Expr

/-- What the code of `compile_expr` computes: a column is NULL for it. -/
def blank : Expr → Value
  | .integer n => .integer n
  | .string s => .text s
  | .unaryOp .not e => Vdbe.logic .not e.blank .null
  | .binaryOp op l r => Vdbe.logic op.opcode l.blank r.blank
  | _ => .null

/-- The column an expression is. -/
def column? (names : Names) : Expr → Option Nat
  | .ident c => names none c
  | .qualifiedIdent t c => names (some t) c
  | _ => none

/-- What the code of `compile_column_or_expr` computes. -/
def operand (names : Names) (row : List Value) (e : Expr) : Value :=
  match e.column? names with
  | some i => cell row (some i)
  | none => e.blank

/-- What the code of `compile_pred` computes. -/
def verdict (names : Names) (row : List Value) : Expr → Value
  | .binaryOp op l r => Vdbe.logic op.predOpcode (l.operand names row) (r.operand names row)
  | e => e.operand names row

end Expr

/-- A 32-bit literal survives the operand of its instruction. -/
theorem ofInt_asI32 {n : Int64} (h : -2 ^ 31 ≤ n.toInt ∧ n.toInt < 2 ^ 31) :
    Int64.ofInt (asI32 n) = n := by
  have hn : asI32 n = n.toInt := by
    unfold asI32
    rw [Int64.toInt_toInt32]
    exact Int.bmod_eq_of_le (by omega) (by omega)
  rw [hn, Int64.ofInt_toInt]

section
variable {names : Names} {op : BinaryOp}

theorem isLogic_opcode (h : op = .and ∨ op = .or ∨ op.isComparison = true) :
    Vdbe.isLogic op.opcode = true := by
  rcases h with rfl | rfl | h
  · rfl
  · rfl
  · cases op <;> first | rfl | cases h

theorem predOpcode_eq (h : op = .and ∨ op = .or ∨ op.isComparison = true) :
    op.predOpcode = op.opcode := by
  rcases h with rfl | rfl | h
  · rfl
  · rfl
  · cases op <;> first | rfl | cases h

end

namespace Vdbe

variable [Unicode] {s : Machine} {names : Names} {e : Expr}

theorem compileExpr_computes (h : e.Clause names) : ∀ {s : Machine} (r : Nat),
    Placed s.program.insns s.pc (compileExpr e r) → Computes s (compileExpr e r) r e.blank := by
  induction h with
  | null => exact fun r hp => computes_one hp r .null fun fuel => rfl
  | @integer n h =>
    intro s r hp
    refine computes_one hp r (.integer n) fun fuel => ?_
    show answer r (.integer (Int64.ofInt (asI32 n))) _ = _
    rw [ofInt_asI32 h]
  | string text => exact fun r hp => computes_one hp r (.text text) fun fuel => rfl
  | ident h => exact fun r hp => computes_one hp r .null fun fuel => rfl
  | qualified h => exact fun r hp => computes_one hp r .null fun fuel => rfl
  | @not e h ih =>
    intro s r hp
    obtain ⟨regs, hrun, hv, hlow⟩ := ih (r + 1) hp.left
    have hlast := hp.right
    have hrun2 : Reaches round (s.moveTo (s.pc + (compileExpr e (r + 1 : Nat)).length) regs)
        (s.moveTo (s.pc + (compileExpr e (r + 1 : Nat)).length + 1)
          (putReg regs r (logic .not e.blank .null))) := by
      refine reaches_answer (s := s.moveTo (s.pc + (compileExpr e (r + 1 : Nat)).length) regs)
        hlast.head r _ fun fuel => ?_
      rw [execute_logic rfl]
      show answer r (logic .not (getReg _ ((r + 1 : Nat) : Int)) _) _ = _
      rw [getReg_nat, Machine.moveTo_regs, Machine.moveTo_regs, hv]
      rfl
    have hend : s.pc + (compileExpr (.unaryOp .not e) r).length =
        s.pc + (compileExpr e (r + 1 : Nat)).length + 1 := by
      rw [compileExpr, List.length_append, List.length_singleton, Nat.add_assoc]
      rfl
    refine ⟨putReg regs r (logic .not e.blank .null), ?_, regAt_putReg_self regs r _,
      fun j hj => ?_⟩
    · rw [hend]
      exact hrun.trans hrun2
    · rw [regAt_putReg_ne _ _ (by omega)]
      exact hlow j (by omega)
  | binary hop hl hr ihl ihr =>
    intro s r hp
    exact computes_binary (isLogic_opcode hop) hp (fun h => ihl (r + 1) h)
      fun pc regs h => ihr (s := s.moveTo pc regs) (r + 2) h

/-! ## Conditions -/

/-- The cursor `id` stands on a row with these values. -/
def OnRow (s : Machine) (id : Int) (row : List Value) : Prop :=
  ∃ cs, s.cursors.lookup id = some cs ∧ (cs.cursor.attach s.pager).values = .ok row

theorem execute_column {id : Int} {row : List Value} (h : OnRow s id row) (r : Int) (i fuel : Nat) :
    execute fuel { opcode := .column, p1 := r, p2 := id, p3 := i } s =
      answer r (cell row (some i)) s := by
  obtain ⟨cs, hcs, hrow⟩ := h
  unfold execute withCursor
  rw [bind_ok (get_apply s)]
  refine (bind_ok (get_apply s) _).trans ?_
  simp only [hcs]
  have hcol : columnOf cs s.pager i = .ok (cell row (some i)) := by
    rw [columnOf, hrow, Res.ok_bind, if_neg (by omega), Int.toNat_natCast]
    rfl
  rw [hcol, bind_ok (lift_ok _ _)]

variable {schema : Schema} {t : Schema.Table} {tb : TableBinding} {row : List Value}

theorem compileColumnOrExpr_eq (ht : schema.table tb.name = some t) (e : Expr) (r : Int) :
    compileColumnOrExpr e schema [tb] r = match e.column? (t.names tb) with
      | some i => [{ opcode := .column, p1 := r, p2 := tb.cursor, p3 := (i : Nat) }]
      | none => compileExpr e r := by
  have hres : (resolveExprColumn e schema [tb]).toOption =
      (e.column? (t.names tb)).map fun i => { tableIdx := 0, colIdx := i } := by
    cases e with
    | ident c => exact resolveExprColumn_ident ht c
    | qualifiedIdent q c => exact resolveExprColumn_qualified ht q c
    | _ => rfl
  unfold compileColumnOrExpr
  cases hcol : e.column? (t.names tb) with
  | none =>
    rw [hcol] at hres
    cases hr : resolveExprColumn e schema [tb] with
    | ok c => rw [hr] at hres; cases hres
    | error err => rfl
  | some i =>
    rw [hcol] at hres
    cases hr : resolveExprColumn e schema [tb] with
    | ok c =>
      rw [hr] at hres
      cases hres
      rfl
    | error err => rw [hr] at hres; cases hres

theorem compileColumnOrExpr_computes (ht : schema.table tb.name = some t)
    (he : e.Clause (t.names tb)) (hrow : OnRow s tb.cursor row) (r : Nat)
    (hp : Placed s.program.insns s.pc (compileColumnOrExpr e schema [tb] r)) :
    Computes s (compileColumnOrExpr e schema [tb] r) r (e.operand (t.names tb) row) := by
  rw [compileColumnOrExpr_eq ht] at hp ⊢
  unfold Expr.operand
  cases hcol : e.column? (t.names tb) with
  | none =>
    rw [hcol] at hp
    exact compileExpr_computes he r hp
  | some i =>
    rw [hcol] at hp
    exact computes_one hp r _ fun fuel =>
      execute_column (s := s.moveTo (s.pc + 1) s.regs) hrow r i fuel

/-- The code of a condition computes its verdict on the row of the cursor. -/
theorem compilePred_computes (ht : schema.table tb.name = some t) (he : e.Clause (t.names tb))
    (hrow : OnRow s tb.cursor row) (r : Nat)
    (hp : Placed s.program.insns s.pc (compilePred e schema [tb] r)) :
    Computes s (compilePred e schema [tb] r) r (e.verdict (t.names tb) row) := by
  cases he with
  | binary hop hl hr =>
    have hlogic := isLogic_opcode hop
    rw [← predOpcode_eq hop] at hlogic
    exact computes_binary hlogic hp (fun h => compileColumnOrExpr_computes ht hl hrow (r + 1) h)
      fun pc regs h => compileColumnOrExpr_computes (s := s.moveTo pc regs) ht hr hrow (r + 2) h
  | null => exact compileColumnOrExpr_computes ht .null hrow r hp
  | integer h => exact compileColumnOrExpr_computes ht (.integer h) hrow r hp
  | string text => exact compileColumnOrExpr_computes ht (.string text) hrow r hp
  | ident h => exact compileColumnOrExpr_computes ht (.ident h) hrow r hp
  | qualified h => exact compileColumnOrExpr_computes ht (.qualified h) hrow r hp
  | not h => exact compileColumnOrExpr_computes ht (.not h) hrow r hp

end Vdbe

end Sqllite
