import Sqllite.L4Vdbe.Join

/-!
# Joins of more than two tables

Every condition and every result column is taken for what its own instructions
compute on the rows of a tuple (`Expr.valueOn`, `Expr.verdictOn`); what is left are
the loops and the conditions that `compile_select` puts together.

* `chain_run`: the rows of a chain of joins, as the code finds them.
* `chains_answered_iff`: a chain is joined exactly when it has two tables.
-/
namespace Sqllite
open Lib Lib.Run Lib.Machine

/-! ## What the code of an expression computes -/

namespace Vdbe

/-- What the instruction of an operator stores, if it does not panic. -/
def operate (op : Opcode) (a b : Value) : Option Value :=
  match op with
  | .add => some (.real (a.asReal.getD 0 + b.asReal.getD 0).toBits)
  | .subtract => some (.real (a.asReal.getD 0 - b.asReal.getD 0).toBits)
  | .multiply => some (.real (a.asReal.getD 0 * b.asReal.getD 0).toBits)
  | .divide => some (.real (a.asReal.getD 0 / b.asReal.getD 0).toBits)
  | .remainder => (remainder (a.asInteger.getD 0) (b.asInteger.getD 0)).toOption.map Value.integer
  | .concat => some (.text (a.toText ++ b.toText))
  | op => some (logic op a b)

end Vdbe

namespace Expr

/-- What the code of `compile_expr` computes. It has no value of its own where it panics,
and for a unary minus, which subtracts whatever register 0 holds. -/
def constant : Expr → Option Value
  | .unaryOp .minus _ => none
  | .unaryOp _ e => e.constant.map fun v => Vdbe.logic .not v .null
  | .binaryOp op l r => l.constant.bind fun a => r.constant.bind fun b => Vdbe.operate op.opcode a b
  | e => some e.coded

section
variable [Unicode] (schema : Schema) (tables : List TableBinding) (t : List (List Value))

/-- What the code of `compile_column_or_expr` computes. -/
def valueOn (e : Expr) : Option Value :=
  match e.columnIn schema tables with
  | some c => some (c.value t)
  | none => e.constant

/-- What the code of `compile_pred` computes. -/
def verdictOn : Expr → Option Value
  | .binaryOp op l r => (l.valueOn schema tables t).bind fun a =>
      (r.valueOn schema tables t).map fun b => Vdbe.logic op.predOpcode a b
  | e => e.valueOn schema tables t

/-- The condition holds on the tuple. -/
def holdsOn (e : Expr) : Bool := (e.verdictOn schema tables t).any Value.nonzero

end

end Expr

namespace Vdbe
variable [Unicode] {s : Machine}

theorem execute_operate {op : BinaryOp} {r : Nat} {a b v : Value} (hv : operate op.opcode a b = some v)
    (ha : regAt s.regs (r + 1) = a) (hb : regAt s.regs (r + 2) = b) (fuel : Nat) :
    execute fuel (combine op.opcode r) s = answer r v s := by
  by_cases hop : isLogic op.opcode = true
  · rw [execute_combine hop, ha, hb]
    have hlogic : operate op.opcode a b = some (logic op.opcode a b) := by
      cases op <;> first | rfl | cases hop
    cases hlogic.symm.trans hv
    rfl
  · have hleft : getReg s (combine op.opcode r).p2 = a := (getReg_nat s (r + 1)).trans ha
    have hright : getReg s (combine op.opcode r).p3 = b := (getReg_nat s (r + 2)).trans hb
    unfold execute
    rw [bind_ok (get_apply s)]
    cases op with
    | add =>
      cases hv
      simp only [combine, BinaryOp.opcode, binaryNumeric] at hleft hright ⊢
      rw [bind_ok (get_apply s), hleft, hright]
    | sub =>
      cases hv
      simp only [combine, BinaryOp.opcode, binaryNumeric] at hleft hright ⊢
      rw [bind_ok (get_apply s), hleft, hright]
    | mul =>
      cases hv
      simp only [combine, BinaryOp.opcode, binaryNumeric] at hleft hright ⊢
      rw [bind_ok (get_apply s), hleft, hright]
    | div =>
      cases hv
      simp only [combine, BinaryOp.opcode, binaryNumeric] at hleft hright ⊢
      rw [bind_ok (get_apply s), hleft, hright]
    | concat =>
      cases hv
      simp only [combine, BinaryOp.opcode] at hleft hright ⊢
      rw [hleft, hright]
    | mod =>
      simp only [combine, BinaryOp.opcode] at hleft hright ⊢
      obtain ⟨n, hn, rfl⟩ := Option.map_eq_some_iff.mp hv
      have hrem : remainder (a.asInteger.getD 0) (b.asInteger.getD 0) = .ok n := by
        cases hres : remainder (a.asInteger.getD 0) (b.asInteger.getD 0) with
        | ok m =>
          rw [hres] at hn
          cases hn
          rfl
        | error e =>
          rw [hres] at hn
          cases hn
      rw [hleft, hright, hrem, bind_ok (lift_ok _ _)]
    | _ => exact absurd rfl hop

theorem execute_not {r : Nat} {v : Value} {op : UnaryOp} (hop : op ≠ .minus) (hv : regAt s.regs (r + 1) = v) (fuel : Nat) :
    execute fuel { opcode := op.opcode, p1 := r, p2 := ((r + 1 : Nat) : Int) } s = answer r (logic .not v .null) s := by
  have hnot : op.opcode = .not := by
    cases op <;> first | rfl | exact absurd rfl hop
  rw [hnot, execute_logic rfl]
  show answer r (logic .not (getReg s ((r + 1 : Nat) : Int)) _) s = _
  rw [getReg_nat, hv]
  rfl

/-- The code of an expression without columns. -/
theorem compileExpr_settles (e : Expr) : ∀ {s : Machine} {r : Nat} {v : Value}, e.constant = some v →
    Placed s.program.insns s.pc (compileExpr e r) → Settles s (compileExpr e r) r v := by
  induction e using Expr.operator_induct with
  | binaryOp op left right ihl ihr =>
    intro s r v hv hp
    obtain ⟨a, ha, hv⟩ := Option.bind_eq_some_iff.mp hv
    obtain ⟨b, hb, hv⟩ := Option.bind_eq_some_iff.mp hv
    apply settles_combine hp
    · exact fun hleft => (ihl (r := r + 1) ha hleft).computes
    · exact fun pc regs hright => (ihr (s := s.moveTo pc regs) (r := r + 2) hb hright).computes
    · exact fun u fuel hl hr => execute_operate hv hl hr fuel
  | unaryOp op e ih =>
    intro s r v hv hp
    have hop : op ≠ .minus := by
      rintro rfl
      cases hv
    obtain ⟨a, ha, rfl⟩ : ∃ a, e.constant = some a ∧ logic .not a .null = v := by
      cases op <;> first | exact Option.map_eq_some_iff.mp hv | exact absurd rfl hop
    obtain ⟨regs, hrun, hval, hlow⟩ := (ih (r := r + 1) ha hp.left).computes
    exact settles_last hp hrun (fun j hj => hlow j (by omega)) fun fuel => execute_not hop hval fuel
  | atom e hatom =>
    intro s r v hv hp
    cases e with
    | binaryOp op l r => cases hatom
    | unaryOp op e => cases hatom
    | _ =>
      cases hv
      exact settles_one hp r _ fun fuel => rfl

section
variable {schema : Schema} {ts : List FromTable} {t : List (List Value)} {e : Expr} {v : Value} {r : Nat}

/-- The code of a column. -/
theorem column_settles {c : ColumnRef} (hc : c.tableIdx < t.length) (hs : OnTuple s t)
    (hp : Placed s.program.insns s.pc [{ opcode := .column, p1 := r, p2 := c.tableIdx, p3 := c.colIdx }]) :
    Settles s [{ opcode := .column, p1 := r, p2 := c.tableIdx, p3 := c.colIdx }] r (c.value t) :=
  settles_one hp r _ fun fuel => execute_columnRef (s := s.moveTo (s.pc + 1) s.regs) hc hs r fuel

/-- A column is one of a table that is there, and its code names it. -/
theorem compileColumnOrExpr_column {c : ColumnRef} (hc : e.columnIn schema (bindings ts) = some c) (r : Int) :
    c.tableIdx < ts.length ∧ compileColumnOrExpr e schema (bindings ts) r =
      [{ opcode := .column, p1 := r, p2 := c.tableIdx, p3 := c.colIdx }] := by
  have hlt := columnIn_lt hc
  rw [bindings, List.length_mapIdx] at hlt
  refine ⟨hlt, ?_⟩
  unfold compileColumnOrExpr
  unfold Expr.columnIn at hc
  cases hr : resolveExprColumn e schema (bindings ts) with
  | ok c' =>
    rw [hr] at hc
    cases hc
    simp only [cursorOf_bindings hlt]
  | error err =>
    rw [hr] at hc
    cases hc

/-- What is no column is compiled without the tables. -/
theorem compileColumnOrExpr_constant (hc : e.columnIn schema (bindings ts) = none) (r : Int) :
    compileColumnOrExpr e schema (bindings ts) r = compileExpr e r := by
  unfold compileColumnOrExpr
  unfold Expr.columnIn at hc
  cases hr : resolveExprColumn e schema (bindings ts) with
  | ok c' =>
    rw [hr] at hc
    cases hc
  | error err => rfl

/-- The code of an expression, on a tuple of rows. -/
theorem compileColumnOrExpr_settles (hv : e.valueOn schema (bindings ts) t = some v) (ht : t.length = ts.length)
    (hs : OnTuple s t) (hp : Placed s.program.insns s.pc (compileColumnOrExpr e schema (bindings ts) r)) :
    Settles s (compileColumnOrExpr e schema (bindings ts) r) r v := by
  unfold Expr.valueOn at hv
  cases hc : e.columnIn schema (bindings ts) with
  | some c =>
    obtain ⟨hlt, hcode⟩ := compileColumnOrExpr_column hc r
    rw [hc] at hv
    cases hv
    rw [hcode] at hp ⊢
    exact column_settles (ht ▸ hlt) hs hp
  | none =>
    rw [hc] at hv
    rw [compileColumnOrExpr_constant hc] at hp ⊢
    exact compileExpr_settles e hv hp

/-- The code of a condition, on a tuple of rows. -/
theorem compilePred_settles (hv : e.verdictOn schema (bindings ts) t = some v) (ht : t.length = ts.length)
    (hs : OnTuple s t) (hp : Placed s.program.insns s.pc (compilePred e schema (bindings ts) r)) :
    Settles s (compilePred e schema (bindings ts) r) r v := by
  cases e with
  | binaryOp op left right =>
    obtain ⟨a, ha, hv⟩ := Option.bind_eq_some_iff.mp hv
    obtain ⟨b, hb, rfl⟩ := Option.map_eq_some_iff.mp hv
    have hlogic : isLogic op.predOpcode = true := by cases op <;> rfl
    apply settles_combine hp
    · exact fun hleft => (compileColumnOrExpr_settles (r := r + 1) ha ht hs hleft).computes
    · exact fun pc regs hright => (compileColumnOrExpr_settles (s := s.moveTo pc regs) (r := r + 2) hb ht hs hright).computes
    · intro u fuel hl hr
      rw [execute_combine hlogic, hl, hr]
  | _ =>
    simp only [Expr.verdictOn] at hv
    exact compileColumnOrExpr_settles hv ht hs hp

/-- The code of a condition tests it. -/
theorem condition_tests (h : ∀ t, (e.verdictOn schema (bindings ts) t).isSome) :
    Tests ts.length (compilePred e schema (bindings ts) 1) (e.holdsOn schema (bindings ts)) := by
  intro s t ht hs hp
  obtain ⟨v, hv⟩ := Option.isSome_iff_exists.mp (h t)
  refine ⟨v, (compilePred_settles (r := 1) hv ht hs hp).computes, ?_⟩
  show v.nonzero = (e.verdictOn schema (bindings ts) t).any Value.nonzero
  rw [hv]
  rfl

/-- What a source of a row comes to. -/
def sourceOn (schema : Schema) (tables : List TableBinding) (t : List (List Value)) : RowSource → Option Value
  | .column c => some (c.value t)
  | .expr e => e.valueOn schema tables t

end

end Vdbe

/-! ## The plan of a join -/

/-- One source for each column. -/
theorem flatten_singletons {α β : Type} {g : α → β} {l : List α} {parts : List (List β)}
    (h : List.Forall₂ (fun a part => part = [g a]) l parts) : parts.flatten = l.map g := by
  induction h with
  | nil => rfl
  | cons hpart _ ih => rw [List.flatten_cons, hpart, ih, List.map_cons, List.singleton_append]

section
variable [Unicode] {schema : Schema} {tables : List TableBinding} {select : Select} {col : ResultColumn}

/-- The source of a result column. -/
def columnSource (schema : Schema) (tables : List TableBinding) (col : ResultColumn) : RowSource :=
  match col.expr.columnIn schema tables with
  | some c => .column c
  | none => .expr col.expr

theorem sourceOn_column (t : List (List Value)) :
    Vdbe.sourceOn schema tables t (columnSource schema tables col) = col.expr.valueOn schema tables t := by
  unfold columnSource Expr.valueOn
  cases hc : col.expr.columnIn schema tables with
  | some c => rfl
  | none =>
    show col.expr.valueOn schema tables t = _
    rw [Expr.valueOn, hc]

/-- A join has no `*`. -/
theorem plainSources_join (hlen : 2 ≤ tables.length) {sources : List RowSource}
    (h : plainSources schema tables col = .ok sources) : sources = [columnSource schema tables col] := by
  by_cases hstar : col.expr = .star
  · have hfail : plainSources schema tables col = fail .error "* is not supported with JOIN" := by
      unfold plainSources
      rw [hstar]
      rcases tables with _ | ⟨tb, _ | ⟨tb', rest⟩⟩
      · rfl
      · exact absurd hlen (by simp)
      · rfl
    cases hfail.symm.trans h
  · have hsrc : plainSources schema tables col = .ok [columnSource schema tables col] := by
      unfold plainSources columnSource Expr.columnIn
      generalize col.expr = e at hstar
      cases e with
      | star => exact absurd rfl hstar
      | _ =>
        simp only
        split <;> next hres => rw [hres]; rfl
    exact Except.ok.inj (h.symm.trans hsrc)

theorem plan_join (hlen : 2 ≤ tables.length) (hfun : ∀ col ∈ select.columns, isFunction col.expr = false)
    {plan : SelectPlan} (h : buildSelectPlan select schema tables = .ok plan) :
    plan.rowSources = select.columns.map (columnSource schema tables) ∧ plan.rowWidth = plan.rowSources.length ∧
      plan.outputWidth = plan.rowWidth ∧ plan.hasAggregates = false := by
  have hany : (select.columns.any fun c => isFunction c.expr) = false := by
    rw [List.any_eq_false]
    exact fun c hc => by simp [hfun c hc]
  unfold buildSelectPlan at h
  simp only [hany, planSources, Bool.false_eq_true, if_false] at h
  obtain ⟨⟨sources, groups⟩, hsources, h⟩ := Res.bind_eq_ok.mp h
  obtain ⟨parts, hparts, hsources⟩ := Res.bind_eq_ok.mp hsources
  obtain ⟨keys, -, h⟩ := Res.bind_eq_ok.mp h
  cases hsources
  cases h
  refine ⟨?_, rfl, rfl, rfl⟩
  exact flatten_singletons ((Res.mapM_eq_ok.mp hparts).imp fun _ _ => plainSources_join hlen)

end

namespace Vdbe
variable [Unicode] {schema : Schema} {ts : List FromTable} {select : Select}

/-- The result columns are loaded from register 0 on. -/
theorem columns_load {plan : SelectPlan}
    (hsources : plan.rowSources = select.columns.map (columnSource schema (bindings ts)))
    (hvalues : ∀ col ∈ select.columns, ∀ t, (col.expr.valueOn schema (bindings ts) t).isSome) :
    Loads ts.length (compileRowLoad plan (bindings ts) schema)
      fun t => select.columns.map fun col => (col.expr.valueOn schema (bindings ts) t).getD .null := by
  intro s t ht hs hp
  rw [compileRowLoad, hsources] at hp ⊢
  have hrow : (select.columns.map (columnSource schema (bindings ts))).map
      (fun src => (sourceOn schema (bindings ts) t src).getD .null) =
      select.columns.map fun col => (col.expr.valueOn schema (bindings ts) t).getD .null := by
    rw [List.map_map]
    exact List.map_congr_left fun col _ => congrArg (·.getD .null) (sourceOn_column t)
  dsimp only
  rw [← hrow]
  refine loadSources_run _ 0 (f := []) (fun src hsrc u r hu hcode => ?_) hs rfl (by simp) hp
  obtain ⟨col, hcol, rfl⟩ := List.mem_map.mp hsrc
  obtain ⟨v, hv⟩ := Option.isSome_iff_exists.mp (hvalues col hcol t)
  rw [sourceOn_column, hv, Option.getD_some]
  unfold columnSource at hcode ⊢
  cases hc : col.expr.columnIn schema (bindings ts) with
  | some c =>
    have hvalue : v = c.value t := by
      rw [Expr.valueOn, hc] at hv
      exact (Option.some.inj hv).symm
    obtain ⟨hlt, -⟩ := compileColumnOrExpr_column hc r
    rw [hc] at hcode
    dsimp only [loadSource] at hcode ⊢
    rw [cursorOf_bindings hlt] at hcode ⊢
    rw [hvalue]
    exact column_settles (ht ▸ hlt) hu hcode
  | none =>
    rw [hc] at hcode
    exact compileColumnOrExpr_settles hv ht hu hcode

end Vdbe

/-! ## The statement -/

section
variable [Unicode] {db : Db} {select : Select} {first : FromTable} {rest : List JoinTerm} {rows : List (List (List Value))}

/-- A chain of joins without aggregates over these rows. Its conditions and result
columns have values. -/
structure JoinStatement (db : Db) (select : Select) (first : FromTable) (rest : List JoinTerm)
    (rows : List (List (List Value))) : Prop where
  clause : select.«from» = some (joinChain first rest)
  rows : List.Forall₂ (Vdbe.HasRows db) (chainTables first rest) rows
  plain : ∀ col ∈ select.columns, isFunction col.expr = false
  conditions : ∀ e ∈ select.conditions rest, ∀ t, (e.verdictOn db.schema (bindings (chainTables first rest)) t).isSome
  columns : ∀ col ∈ select.columns, ∀ t, (col.expr.valueOn db.schema (bindings (chainTables first rest)) t).isSome

/-- The result rows of those tuples that satisfy the conditions. -/
def Select.chosen (select : Select) (schema : Schema) (tables : List TableBinding) (conditions : List Expr)
    (tuples : List (List (List Value))) : List (List Value) :=
  (tuples.filter fun t => conditions.all fun e => e.holdsOn schema tables t).map fun t =>
    select.columns.map fun col => (col.expr.valueOn schema tables t).getD .null

/-- The conditions that are tested: that of the last join, and the WHERE clause. -/
def Select.tested (select : Select) (rest : List JoinTerm) : List Expr :=
  rest.getLast?.toList.map (·.on) ++ select.whereClause.toList

omit [Unicode] in
theorem mem_conditions {e : Expr} (h : e ∈ select.tested rest) : e ∈ select.conditions rest := by
  rcases List.mem_append.mp h with h | h
  · obtain ⟨j, hj, rfl⟩ := List.mem_map.mp h
    exact List.mem_append_left _ (List.mem_map_of_mem (List.mem_of_getLast? (Option.mem_toList.mp hj)))
  · exact List.mem_append_right _ h

omit [Unicode] in
theorem ordered_perm (select : Select) (plan : SelectPlan) (rows : List (List Value)) :
    (Vdbe.ordered select plan rows).Perm rows := by
  unfold Vdbe.ordered
  split
  · exact .refl _
  · exact List.mergeSort_perm _ _

/-- What the code of a chain of joins returns, in some order. -/
theorem chain_run (h : JoinStatement db select first rest rows) (hne : rest ≠ []) {prog : Program}
    (hprog : compileSelect select db.schema = .ok prog) :
    ∃ out, Vdbe.Returns (Vdbe.fresh prog db) out ∧ out.Perm
      (select.chosen db.schema (bindings (chainTables first rest)) (select.tested rest) (looped rows)) := by
  have htables := Vdbe.HasRows.found h.rows
  have hcount := simpleCountStar_none (joinChain first rest) h.plain
  have hlen : 2 ≤ (bindings (chainTables first rest)).length := by
    rw [bindings, List.length_mapIdx, chainTables, List.length_cons, List.length_map]
    have := List.length_pos_of_ne_nil hne
    omega
  obtain ⟨tables, join, n, plan, guards, hcollect, hplan, -⟩ := compileSelect_layout h.clause hcount hprog
  obtain rfl : tables = bindings (chainTables first rest) := by
    cases hcollect.symm.trans (collectFrom_chain rest htables)
    rfl
  obtain ⟨hsources, hwidth, houtput, hagg⟩ := plan_join hlen h.plain hplan
  have hcode := hprog.symm.trans (compileSelect_chain h.clause htables hplan hcount hagg)
  have htests : List.Forall₂ (Vdbe.Tests (chainTables first rest).length)
      ((select.tested rest).map fun e => compilePred e db.schema (bindings (chainTables first rest)) 1)
      ((select.tested rest).map fun e => e.holdsOn db.schema (bindings (chainTables first rest))) := by
    rw [List.forall₂_map_left_iff, List.forall₂_map_right_iff, List.forall₂_same]
    exact fun e he => Vdbe.condition_tests (h.conditions e (mem_conditions he))
  have hguards : (select.tested rest).map (fun e => compilePred e db.schema (bindings (chainTables first rest)) 1) =
      (rest.getLast?.toList.map fun j => compilePred j.on db.schema (bindings (chainTables first rest)) 1) ++
        whereGuards select db.schema (bindings (chainTables first rest)) := by
    rw [Select.tested, List.map_append, List.map_map]
    rfl
  have hrun := Vdbe.chain_returns h.rows (List.cons_ne_nil _ _) htests (Vdbe.columns_load hsources h.columns)
    (fun t => by rw [List.length_map, hwidth, hsources, List.length_map]) houtput
    (by rw [hguards]; exact congrArg Program.insns (Except.ok.inj hcode))
  have hchosen : Vdbe.selected ((select.tested rest).map fun e => e.holdsOn db.schema (bindings (chainTables first rest)))
      (fun t => select.columns.map fun col =>
        (col.expr.valueOn db.schema (bindings (chainTables first rest)) t).getD .null) (looped rows) =
      select.chosen db.schema (bindings (chainTables first rest)) (select.tested rest) (looped rows) := by
    unfold Vdbe.selected Select.chosen
    simp only [List.all_map, Function.comp_def]
  rw [hchosen] at hrun
  refine ⟨_, hrun, ?_⟩
  split
  · exact ordered_perm select plan _
  · exact .refl _

end

/-- Every chain of `k` tables is joined: the rows are those of the tuples that satisfy
all the conditions. -/
def ChainsAnswered (k : Nat) : Prop :=
  ∀ [Unicode] (db : Db) (select : Select) (first : FromTable) (rest : List JoinTerm) (rows : List (List (List Value)))
    (prog : Program), rest.length + 1 = k → JoinStatement db select first rest rows →
    compileSelect select db.schema = .ok prog → ∃ out, Vdbe.Finishes (Vdbe.fresh prog db) out ∧ out.Perm
      (select.chosen db.schema (bindings (chainTables first rest)) (select.conditions rest) (tuples rows))

theorem two_answered : ChainsAnswered 2 := by
  intro _ db select first rest rows prog hk h hprog
  obtain ⟨j, rfl⟩ := List.length_eq_one_iff.mp (Nat.succ.inj hk)
  have hlen : rows.length ≤ 2 := Nat.le_of_eq (h.rows.length_eq.symm.trans (by simp [chainTables]))
  obtain ⟨out, hout, hperm⟩ := chain_run h (List.cons_ne_nil _ _) hprog
  rw [looped_eq_tuples hlen] at hperm
  exact ⟨out, hout.finishes, hperm⟩

/-! ### A condition that is dropped -/

/-- `t JOIN t ON 1 = 2 JOIN t ON 1 = 1 ..`: the first condition is false. -/
def dropped (n : Nat) : List JoinTerm :=
  { table := { name := "t", «alias» := none }, on := .binaryOp .eq (.integer 1) (.integer 2) } ::
    List.replicate (n + 1) { table := { name := "t", «alias» := none }, on := .binaryOp .eq (.integer 1) (.integer 1) }

/-- `SELECT 7` over them. -/
def droppedSelect (n : Nat) : Select := selectFrom [.integer 7] (dropped n)

section
variable [Unicode]

omit [Unicode] in
theorem dropped_tables (n : Nat) : chainTables { name := "t", «alias» := none } (dropped n) =
    List.replicate (n + 3) { name := "t", «alias» := none } := by
  simp [chainTables, dropped, List.replicate_succ]

theorem dropped_statement (ht : oneRowDb.schema.table "t" = some tableA) (n : Nat) :
    JoinStatement oneRowDb (droppedSelect n) { name := "t", «alias» := none } (dropped n) (List.replicate (n + 3) oneRow) := by
  have hcols : ∀ col ∈ (droppedSelect n).columns, col = { expr := .integer 7, «alias» := none } := fun col hcol =>
    List.mem_singleton.mp hcol
  refine ⟨rfl, ?_, fun col hcol => hcols col hcol ▸ rfl, fun e he t => ?_, fun col hcol t => hcols col hcol ▸ rfl⟩
  · rw [dropped_tables]
    induction n + 3 with
    | zero => exact .nil
    | succ k ih => exact .cons (oneRow_has ht) ih
  · rcases List.mem_append.mp he with he | he
    · obtain ⟨j, hj, rfl⟩ := List.mem_map.mp he
      rcases List.mem_cons.mp hj with rfl | hj
      · rfl
      · rw [List.eq_of_mem_replicate hj]
        rfl
    · cases he

omit [Unicode] in
theorem dropped_tested (n : Nat) : (droppedSelect n).tested (dropped n) = [.binaryOp .eq (.integer 1) (.integer 1)] := by
  simp [Select.tested, droppedSelect, selectFrom, dropped, List.getLast?_cons, List.getLast?_replicate]

theorem dropped_compiles (ht : oneRowDb.schema.table "t" = some tableA) (n : Nat) :
    ∃ prog, compileSelect (droppedSelect n) oneRowDb.schema = .ok prog := by
  have h := dropped_statement ht n
  have hsrc : ∀ col ∈ (droppedSelect n).columns, plainSources oneRowDb.schema
      (bindings (chainTables { name := "t", «alias» := none } (dropped n))) col = .ok [.expr col.expr] :=
    fun col hcol => List.mem_singleton.mp hcol ▸ rfl
  obtain ⟨plan, hplan, -, -, -, hagg⟩ := buildSelectPlan_plain h.plain hsrc rfl
  exact ⟨_, compileSelect_chain h.clause (Vdbe.HasRows.found h.rows) hplan (simpleCountStar_none _ h.plain) hagg⟩

omit [Unicode] in
theorem oneRow_ne_nil : oneRow ≠ [] := by decide +kernel

/-- It returns a row. -/
theorem dropped_returns (ht : oneRowDb.schema.table "t" = some tableA) (n : Nat) {prog : Program}
    (hprog : compileSelect (droppedSelect n) oneRowDb.schema = .ok prog) :
    ∃ out, Vdbe.Returns (Vdbe.fresh prog oneRowDb) out ∧ out ≠ [] := by
  obtain ⟨out, hout, hperm⟩ := chain_run (dropped_statement ht n) (List.cons_ne_nil _ _) hprog
  refine ⟨out, hout, fun hnil => ?_⟩
  subst hnil
  have hlooped : looped (List.replicate (n + 3) oneRow) = [] := by
    have hnone := hperm.nil_eq.symm
    rw [dropped_tested, Select.chosen, List.map_eq_nil_iff, List.filter_eq_nil_iff] at hnone
    refine List.eq_nil_iff_forall_not_mem.mpr fun t ht => hnone t ht ?_
    show (some (Vdbe.logic .eq (Expr.integer 1).coded (Expr.integer 1).coded)).any Value.nonzero && true
    decide +kernel
  rw [List.replicate_succ, List.replicate_succ, looped_two, List.flatMap_eq_nil_iff] at hlooped
  obtain ⟨row, rows, hrows⟩ := List.exists_cons_of_ne_nil oneRow_ne_nil
  have := hlooped row (hrows ▸ List.mem_cons_self)
  exact oneRow_ne_nil (List.map_eq_nil_iff.mp this)

/-- No tuple satisfies its first condition. -/
theorem dropped_none (n : Nat) (schema : Schema) (tables : List TableBinding) (ts : List (List (List Value))) :
    (droppedSelect n).chosen schema tables ((droppedSelect n).conditions (dropped n)) ts = [] := by
  have hfalse : ∀ t, (Expr.binaryOp .eq (.integer 1) (.integer 2)).holdsOn schema tables t = false := fun t => by
    show (some (Vdbe.logic .eq (Expr.integer 1).coded (Expr.integer 2).coded)).any Value.nonzero = false
    decide +kernel
  rw [Select.chosen, List.map_eq_nil_iff, List.filter_eq_nil_iff]
  intro t _
  rw [Select.conditions, dropped, List.map_cons, List.cons_append, List.all_cons, hfalse]
  exact Bool.false_ne_true

omit [Unicode] in
theorem dropped_unanswered (n : Nat) : ¬ ChainsAnswered (n + 3) := by
  intro h
  let _ := Unicode.ascii
  have ht : oneRowDb.schema.table "t" = some tableA := by decide +kernel
  obtain ⟨prog, hprog⟩ := dropped_compiles ht n
  obtain ⟨out, hout, hne⟩ := dropped_returns ht n hprog
  obtain ⟨out', hout', hperm⟩ := h oneRowDb (droppedSelect n) _ (dropped n) _ prog (by simp [dropped]) (dropped_statement ht n) hprog
  rw [dropped_none] at hperm
  cases hout.finishes.unique hout'
  exact hne hperm.eq_nil

end

example : let _ := Unicode.ascii
    (compile (.ok (.select (droppedSelect 0))) oneRowDb.schema).toOption.map (fun prog =>
      outcome (Vdbe.rows 30 30) (Vdbe.fresh prog oneRowDb)) = some (.ok [[.integer 7]]) := by
  decide +kernel

end Sqllite
