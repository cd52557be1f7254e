import Sqllite.L4Vdbe.Results
import Sqllite.L4Vdbe.Where

/-!
# What a join returns

A comparison and a result column are one instruction for each column or literal in
them. A literal may not survive its instruction: `Expr.coded` is the value it
arrives with.

* `select_join_iff`: the rows of a `SELECT` over one table, or over two.
-/
namespace Sqllite
open Lib Lib.Run Lib.Machine

/-! ## Columns of several tables -/

section
variable [Unicode] {schema : Schema} {tables : List TableBinding} {e : Expr} {c : ColumnRef}

theorem findColumn_lt {name : String} : ∀ {tables : List TableBinding} {ti n : Nat}
    {found : Option ColumnRef}, ti + tables.length ≤ n → (∀ c ∈ found, c.tableIdx < n) →
    findColumn schema name tables ti found = .ok (some c) → c.tableIdx < n
  | [], _, _, found, _, hf, h => by
    cases h
    exact hf c rfl
  | tb :: tables, ti, n, found, hn, hf, h => by
    rw [List.length_cons] at hn
    rw [findColumn] at h
    cases hb : boundColumn schema tb name with
    | none =>
      rw [hb] at h
      exact findColumn_lt (by omega) hf h
    | some ci =>
      rw [hb] at h
      simp only at h
      split at h
      · cases h
      · have hlen : ti + 1 + tables.length ≤ n := by omega
        refine findColumn_lt hlen (fun c' hc' => ?_) h
        cases hc'
        exact Nat.lt_of_lt_of_le (Nat.lt_succ_self ti) (by omega)

/-- A column is one of a table that is there. -/
theorem columnIn_lt (h : e.columnIn schema tables = some c) : c.tableIdx < tables.length := by
  have hres : resolveExprColumn e schema tables = .ok c := by
    unfold Expr.columnIn at h
    cases hr : resolveExprColumn e schema tables with
    | ok c' =>
      rw [hr] at h
      cases h
      rfl
    | error err =>
      rw [hr] at h
      cases h
  cases e with
  | ident name =>
    obtain ⟨found, hfound, hres⟩ := Res.bind_eq_ok.mp hres
    cases found with
    | none => cases hres
    | some c' =>
      cases hres
      exact findColumn_lt (Nat.le_of_eq (Nat.zero_add _)) (by simp) hfound
  | qualifiedIdent t name =>
    obtain ⟨ti, hti, hres⟩ := Res.bind_eq_ok.mp hres
    unfold findTableIndex at hti
    cases hf : tables.findIdx? fun x => eqIgnoreAsciiCase x.name t || eqIgnoreAsciiCase x.alias t with
    | none =>
      rw [hf] at hti
      cases hti
    | some i =>
      rw [hf] at hti
      cases hti
      cases hc : tables[ti]?.bind fun tb => boundColumn schema tb name with
      | none =>
        rw [hc] at hres
        cases hres
      | some ci =>
        rw [hc] at hres
        cases hres
        exact (List.findIdx?_eq_some_iff_findIdx_eq.mp hf).1
  | _ => cases hres

end

/-- The cursors of the tables are numbered. -/
theorem cursorOf_bindings {ts : List FromTable} {c : ColumnRef} (h : c.tableIdx < ts.length) :
    cursorOf (bindings ts) c = c.tableIdx := by
  unfold cursorOf bindings
  rw [List.getElem?_mapIdx, List.getElem?_eq_getElem h]
  rfl

/-! ## Values in the code -/

namespace Expr

/-- The value a literal has behind its instruction. -/
def coded : Expr → Value
  | .integer n => .integer (Int64.ofInt (asI32 n))
  | .real r => .real r
  | .string s => .text s
  | _ => .null

/-- A literal, if it is one, survives its instruction. -/
def Fits : Expr → Prop
  | .integer n => -2 ^ 31 ≤ n.toInt ∧ n.toInt < 2 ^ 31
  | .blob _ => False
  | _ => True

instance (e : Expr) : Decidable e.Fits := by
  cases e <;> unfold Fits <;> infer_instance

/-- A column or a literal. -/
def Operand [Unicode] (schema : Schema) (tables : List TableBinding) (e : Expr) : Prop :=
  (e.columnIn schema tables).isSome ∨ e.literal.isSome

/-- The value of a column or a literal behind its instruction. -/
def codedIn [Unicode] (schema : Schema) (tables : List TableBinding) (t : List (List Value)) (e : Expr) : Value :=
  match e.columnIn schema tables with
  | some c => c.value t
  | none => e.coded

end Expr

theorem asI32_range (n : Int64) : -2 ^ 31 ≤ asI32 n ∧ asI32 n < 2 ^ 31 := by
  unfold asI32
  exact ⟨Int32.le_toInt _, Int32.toInt_lt _⟩

/-- A literal is the value it arrives with if it survives its instruction. -/
theorem coded_eq_iff {e : Expr} {v : Value} (h : e.literal = some v) : e.coded = v ↔ e.Fits := by
  cases e with
  | integer n =>
    cases h
    refine ⟨fun heq => ?_, fun hfits => congrArg Value.integer (ofInt_asI32 hfits)⟩
    have hn : Int64.ofInt (asI32 n) = n := by
      injection heq
    have hrange := asI32_range n
    have hint : asI32 n = n.toInt := by
      have := congrArg Int64.toInt hn
      rwa [Int64.toInt_ofInt_of_le (by omega) (by omega)] at this
    rwa [hint] at hrange
  | blob b =>
    cases h
    exact ⟨fun heq => (nomatch heq), fun hfits => False.elim hfits⟩
  | null => cases h; exact ⟨fun _ => trivial, fun _ => rfl⟩
  | real r => cases h; exact ⟨fun _ => trivial, fun _ => rfl⟩
  | string s => cases h; exact ⟨fun _ => trivial, fun _ => rfl⟩
  | _ => cases h

/-! ## One instruction for each -/

namespace Vdbe

theorem nonzero_logic {op : BinaryOp} (hop : op = .eq ∨ op = .notEq ∨ op = .lt ∨ op = .gt) (a b : Value) :
    (logic op.predOpcode a b).nonzero = op.admits (a.compare b) := by
  rcases hop with rfl | rfl | rfl | rfl <;> exact Value.nonzero_ofBool _

section
variable [Unicode] {schema : Schema} {ts : List FromTable} {e : Expr}

/-- The code of a literal. -/
theorem compileExpr_literal (h : e.literal.isSome) (r : Nat) :
    ∃ insn, compileExpr e r = [insn] ∧
      ∀ (s : Machine) (fuel : Nat), execute fuel insn s = answer r e.coded s := by
  cases e with
  | integer n => exact ⟨_, rfl, fun _ _ => rfl⟩
  | real n => exact ⟨_, rfl, fun _ _ => rfl⟩
  | string n => exact ⟨_, rfl, fun _ _ => rfl⟩
  | null => exact ⟨_, rfl, fun _ _ => rfl⟩
  | blob n => exact ⟨_, rfl, fun _ _ => rfl⟩
  | _ => cases h

theorem execute_columnRef {s : Machine} {t : List (List Value)} {c : ColumnRef}
    (hc : c.tableIdx < t.length) (hs : OnTuple s t) (r fuel : Nat) :
    execute fuel { opcode := .column, p1 := r, p2 := c.tableIdx, p3 := c.colIdx } s =
      answer r (c.value t) s := by
  have hrow := List.getElem?_eq_getElem hc
  rw [execute_column (hs c.tableIdx _ hrow), ColumnRef.value, hrow]
  rfl

/-- The code of a column or a literal. -/
theorem compileColumnOrExpr_one (h : e.Operand schema (bindings ts)) (r : Nat) :
    ∃ insn, compileColumnOrExpr e schema (bindings ts) r = [insn] ∧
      ∀ (s : Machine) t, t.length = ts.length → OnTuple s t → ∀ fuel,
        execute fuel insn s = answer r (e.codedIn schema (bindings ts) t) s := by
  unfold compileColumnOrExpr Expr.codedIn
  cases hcol : e.columnIn schema (bindings ts) with
  | some c =>
    have hres : resolveExprColumn e schema (bindings ts) = .ok c := by
      unfold Expr.columnIn at hcol
      cases hr : resolveExprColumn e schema (bindings ts) with
      | ok c' => rw [hr] at hcol; cases hcol; rfl
      | error err => rw [hr] at hcol; cases hcol
    have hlt := columnIn_lt hcol
    rw [bindings, List.length_mapIdx] at hlt
    rw [hres]
    simp only [cursorOf_bindings hlt]
    exact ⟨_, rfl, fun s t ht hs fuel => execute_columnRef (ht ▸ hlt) hs r fuel⟩
  | none =>
    have hlit := h.resolve_left (by rw [hcol]; simp)
    obtain ⟨insn, hcode, hex⟩ := compileExpr_literal hlit r
    unfold Expr.columnIn at hcol
    cases hr : resolveExprColumn e schema (bindings ts) with
    | ok c' => rw [hr] at hcol; cases hcol
    | error err => exact ⟨insn, hcode, fun s t _ _ fuel => hex s fuel⟩

/-! ## Conditions -/

theorem codedIn_comparand {schema : Schema} {tables : List TableBinding}
    (h : e.Comparand schema tables) (t : List (List Value)) :
    e.codedIn schema tables t = e.valueIn schema tables t := by
  unfold Expr.codedIn Expr.valueIn
  cases hcol : e.columnIn schema tables with
  | some c => rfl
  | none =>
    rcases h with h | rfl | ⟨text, rfl⟩ | ⟨n, rfl, hn⟩
    · rw [hcol] at h; cases h
    · rfl
    · rfl
    · exact congrArg Value.integer (ofInt_asI32 hn)

theorem operand_comparand {schema : Schema} {tables : List TableBinding}
    (h : e.Comparand schema tables) : e.Operand schema tables := by
  rcases h with h | rfl | ⟨text, rfl⟩ | ⟨n, rfl, -⟩
  · exact .inl h
  all_goals exact .inr rfl

theorem comparand_computes {s : Machine} {t : List (List Value)} (h : e.Comparand schema (bindings ts))
    (ht : t.length = ts.length) (hs : OnTuple s t) (r : Nat)
    (hp : Placed s.program.insns s.pc (compileColumnOrExpr e schema (bindings ts) r)) :
    Computes s (compileColumnOrExpr e schema (bindings ts) r) r (e.valueIn schema (bindings ts) t) := by
  obtain ⟨insn, hcode, hex⟩ := compileColumnOrExpr_one (operand_comparand h) r
  rw [hcode] at hp ⊢
  rw [← codedIn_comparand h]
  exact computes_one hp r _ fun fuel => hex (s.moveTo (s.pc + 1) s.regs) t ht hs fuel

/-- The code of a comparison tests it. -/
theorem comparison_tests (h : e.Comparison schema (bindings ts)) :
    Tests ts.length (compilePred e schema (bindings ts) 1)
      fun t => e.satisfied schema (bindings ts) t := by
  obtain ⟨hop, hl, hr⟩ := h
  rename_i op l r
  intro s t ht hs hp
  have hlogic : isLogic op.predOpcode = true := by rcases hop with rfl | rfl | rfl | rfl <;> rfl
  refine ⟨_, computes_binary hlogic hp (fun hp => comparand_computes hl ht hs 2 hp)
    fun pc regs hp => comparand_computes (s := s.moveTo pc regs) hr ht hs 3 hp, ?_⟩
  exact nonzero_logic hop _ _

/-! ## Result columns -/

/-- The value of a source of a row behind its instruction. -/
def sourceValue (schema : Schema) (tables : List TableBinding) (t : List (List Value)) : RowSource → Value
  | .column c => c.value t
  | .expr e => e.codedIn schema tables t

/-- A source that one instruction loads. -/
def LoadsOne (schema : Schema) (ts : List FromTable) : RowSource → Prop
  | .column c => c.tableIdx < ts.length
  | .expr e => e.Operand schema (bindings ts)

theorem loadSource_one {src : RowSource} (h : LoadsOne schema ts src) (r : Nat) :
    ∃ insn, loadSource (bindings ts) schema r src = [insn] ∧
      ∀ (s : Machine) t, t.length = ts.length → OnTuple s t → ∀ fuel,
        execute fuel insn s = answer r (sourceValue schema (bindings ts) t src) s := by
  cases src with
  | column c =>
    rw [loadSource, cursorOf_bindings h]
    exact ⟨_, rfl, fun s t ht hs fuel => execute_columnRef (ht ▸ h) hs r fuel⟩
  | expr e => exact compileColumnOrExpr_one h r

/-- The sources are loaded into the registers from `i` on, those below stay. -/
theorem loadSources_run {t : List (List Value)} {value : RowSource → Value} :
    ∀ (sources : List RowSource) (i : Nat) {s : Machine} {f : List Value},
    (∀ src ∈ sources, ∀ (u : Machine) (r : Nat), OnTuple u t →
      Placed u.program.insns u.pc (loadSource (bindings ts) schema r src) →
      Settles u (loadSource (bindings ts) schema r src) r (value src)) → OnTuple s t → f.length = i →
    (∀ (j : Nat) v, f[j]? = some v → s.regs[j]? = some v) →
    Placed s.program.insns s.pc (loadSources (bindings ts) schema i sources) →
    ∃ regs, Reaches round s
      (s.moveTo (s.pc + (loadSources (bindings ts) schema i sources).length) regs) ∧
      ∀ (j : Nat) v, (f ++ sources.map value)[j]? = some v → regs[j]? = some v
  | [], i, s, f, _, _, _, hf, _ =>
    ⟨s.regs, Reaches.refl, by rwa [List.map_nil, List.append_nil]⟩
  | src :: sources, i, s, f, hone, hs, hlen, hf, hp => by
    rw [loadSources] at hp ⊢
    obtain ⟨regs1, hfirst, hv, hlow⟩ := hone src List.mem_cons_self s i hs hp.left
    obtain ⟨regs, hrun, hregs⟩ := loadSources_run sources (i + 1)
      (s := s.moveTo (s.pc + (loadSource (bindings ts) schema i src).length) regs1)
      (f := f ++ [value src])
      (fun x hx => hone x (List.mem_cons_of_mem _ hx)) hs (by simp [hlen])
      (fun j v hj => by
        by_cases hji : j = i
        · subst hji
          rw [List.getElem?_append_right (by omega), hlen, Nat.sub_self] at hj
          cases hj
          exact hv
        · have hlt : j < f.length := by
            have := (List.getElem?_eq_some_iff.mp hj).1
            rw [List.length_append, List.length_singleton] at this
            omega
          rw [List.getElem?_append_left hlt] at hj
          exact reg_of_low hv (by omega) (hlow j (by omega)) (hf j v hj)) hp.right
    refine ⟨regs, ?_, by simpa using hregs⟩
    rw [List.length_append, ← Nat.add_assoc]
    exact hfirst.trans hrun

theorem load_loads {plan : SelectPlan} (h : ∀ src ∈ plan.rowSources, LoadsOne schema ts src) :
    Loads ts.length (compileRowLoad plan (bindings ts) schema)
      fun t => plan.rowSources.map (sourceValue schema (bindings ts) t) := by
  intro s t ht hs hp
  refine loadSources_run plan.rowSources 0 (f := []) (fun src hsrc u r hu hcode => ?_) hs rfl (by simp) hp
  obtain ⟨insn, hinsn, hex⟩ := loadSource_one (h src hsrc) r
  rw [hinsn] at hcode ⊢
  exact settles_one hcode r _ fun fuel => hex (u.moveTo (u.pc + 1) u.regs) t ht hu fuel

end

end Vdbe

/-! ## The statement -/

/-- Two lists made of pieces of the same lengths. -/
theorem flatMap_inj_of_length {α β : Type} {f g : α → List β} : ∀ {l : List α},
    (∀ a ∈ l, (f a).length = (g a).length) → (l.flatMap f = l.flatMap g ↔ ∀ a ∈ l, f a = g a)
  | [], _ => by simp
  | a :: l, h => by
    have ih := flatMap_inj_of_length fun b hb => h b (List.mem_cons_of_mem a hb)
    rw [List.flatMap_cons, List.flatMap_cons, List.forall_mem_cons, ← ih]
    exact ⟨fun heq => List.append_inj heq (h a List.mem_cons_self), fun ⟨hf, hg⟩ => by rw [hf, hg]⟩

section
variable [Unicode] {schema : Schema} {ts : List FromTable} {select : Select} {col : ResultColumn}
  {e : Expr}

/-- A result column: `*` of the only table, a column or a literal. -/
def ResultColumn.Plain (schema : Schema) (ts : List FromTable) (col : ResultColumn) : Prop :=
  (ts.length = 1 ∧ col.expr = .star) ∨ col.expr.Operand schema (bindings ts)

/-- The sources of a result column. -/
def columnSources (schema : Schema) (tables : List TableBinding) (col : ResultColumn) : List RowSource :=
  (plainSources schema tables col).toOption.getD []

theorem columnSources_eq {sources : List RowSource}
    (h : plainSources schema (bindings ts) col = .ok sources) :
    columnSources schema (bindings ts) col = sources := by
  rw [columnSources, h]
  rfl

theorem operand_cases (h : e.Operand schema (bindings ts)) : isFunction e = false ∧ e ≠ .star := by
  cases e with
  | function name distinct args =>
    rcases h with h | h <;> cases h
  | star => rcases h with h | h <;> cases h
  | _ => exact ⟨rfl, fun h => nomatch h⟩

theorem fits_column {c : ColumnRef} (h : e.columnIn schema (bindings ts) = some c) : e.Fits := by
  cases e with
  | integer n => cases h
  | blob b => cases h
  | _ => trivial

/-- A column is its value, a literal if it survives its instruction. -/
theorem codedIn_eq_iff (h : e.Operand schema (bindings ts)) (t : List (List Value)) :
    e.codedIn schema (bindings ts) t = e.valueIn schema (bindings ts) t ↔ e.Fits := by
  unfold Expr.codedIn Expr.valueIn
  cases hcol : e.columnIn schema (bindings ts) with
  | some c => exact iff_of_true rfl (fits_column hcol)
  | none =>
    obtain ⟨v, hv⟩ := Option.isSome_iff_exists.mp (h.resolve_left (by simp [hcol]))
    rw [hv]
    exact coded_eq_iff hv

theorem plainSources_operand (h : col.expr.Operand schema (bindings ts)) :
    plainSources schema (bindings ts) col = .ok
      [match col.expr.columnIn schema (bindings ts) with
        | some c => .column c
        | none => .expr col.expr] := by
  unfold plainSources Expr.columnIn
  obtain ⟨-, hstar⟩ := operand_cases h
  generalize col.expr = e at hstar
  cases e with
  | star => exact absurd rfl hstar
  | _ =>
    simp only
    split <;> next hres => rw [hres]; rfl

theorem plainSources_star {t : FromTable} {table : Schema.Table}
    (ht : schema.table t.name = some table) (h : col.expr = .star) :
    plainSources schema (bindings [t]) col = .ok
      ((List.range table.columnCount).map fun i => .column { tableIdx := 0, colIdx := i }) := by
  have htb : schema.table (t.bind 0).name = some table := ht
  unfold plainSources
  rw [h]
  simp only [bindings, List.mapIdx_cons, List.mapIdx_nil, htb]

/-- What the sources of a result column come to: the values of the column, but for a
literal that does not survive its instruction. -/
structure Loaded (schema : Schema) (ts : List FromTable) (col : ResultColumn)
    (sources : List RowSource) : Prop where
  found : plainSources schema (bindings ts) col = .ok sources
  one : ∀ src ∈ sources, Vdbe.LoadsOne schema ts src
  length : ∀ t, (sources.map (Vdbe.sourceValue schema (bindings ts) t)).length =
    (Select.projectColumn schema (bindings ts) t col).length
  values : ∀ t, sources.map (Vdbe.sourceValue schema (bindings ts) t) =
    Select.projectColumn schema (bindings ts) t col ↔ col.expr.Fits

theorem plain_loaded (htables : ∀ t ∈ ts, (schema.table t.name).isSome) (h : col.Plain schema ts) :
    Loaded schema ts col (columnSources schema (bindings ts) col) := by
  rcases h with ⟨hlen, hstar⟩ | h
  · obtain ⟨t, rfl⟩ := List.length_eq_one_iff.mp hlen
    obtain ⟨table, ht⟩ := Option.isSome_iff_exists.mp (htables t List.mem_cons_self)
    have hsrc := plainSources_star ht hstar
    have hproject : ∀ u, Select.projectColumn schema (bindings [t]) u col =
        (List.range table.columnCount).map fun c => cell (u[0]?.getD []) (some c) := by
      intro u
      have htb : schema.table (t.bind 0).name = some table := ht
      unfold Select.projectColumn
      rw [hstar]
      simp only [bindings, List.mapIdx_cons, List.mapIdx_nil, htb]
      rfl
    rw [columnSources_eq hsrc]
    refine ⟨hsrc, ?_, fun u => ?_, fun u => ?_⟩
    · intro src hmem
      obtain ⟨i, -, rfl⟩ := List.mem_map.mp hmem
      exact Nat.zero_lt_one
    · rw [hproject, List.length_map, List.length_map, List.length_map]
    · rw [hproject, hstar]
      exact iff_of_true (by rw [List.map_map]; rfl) trivial
  · have hsrc := plainSources_operand h
    have hproject : ∀ u, Select.projectColumn schema (bindings ts) u col =
        [col.expr.valueIn schema (bindings ts) u] := by
      intro u
      obtain ⟨-, hstar⟩ := operand_cases h
      unfold Select.projectColumn
      split
      · next heq _ => exact absurd heq hstar
      · rfl
    have hvalue : ∀ u, Vdbe.sourceValue schema (bindings ts) u
        (match col.expr.columnIn schema (bindings ts) with
        | some c => .column c
        | none => .expr col.expr) = col.expr.codedIn schema (bindings ts) u := by
      intro u
      unfold Expr.codedIn
      cases hcol : col.expr.columnIn schema (bindings ts) with
      | some c => rfl
      | none =>
        show col.expr.codedIn schema (bindings ts) u = _
        rw [Expr.codedIn, hcol]
    rw [columnSources_eq hsrc]
    refine ⟨hsrc, ?_, fun u => ?_, fun u => ?_⟩
    · intro src hmem
      obtain rfl := List.mem_singleton.mp hmem
      cases hcol : col.expr.columnIn schema (bindings ts) with
      | some c =>
        have hlt := columnIn_lt hcol
        rwa [bindings, List.length_mapIdx] at hlt
      | none => exact h
    · rw [hproject]
      rfl
    · rw [hproject]
      show [_] = _ ↔ _
      rw [hvalue, List.singleton_inj]
      exact codedIn_eq_iff h u

/-- What the statement returns: its sources behind their instructions, for each tuple
that satisfies the conditions. -/
def coded (select : Select) (schema : Schema) (tables : List TableBinding) (rest : List JoinTerm)
    (rows : List (List (List Value))) : List (List Value) :=
  ((tuples rows).filter fun t =>
    (select.conditions rest).all (Expr.satisfied schema tables t)).map fun t =>
      (select.columns.flatMap (columnSources schema tables)).map (Vdbe.sourceValue schema tables t)

end

section
variable [Unicode] {db : Db} {select : Select} {first : FromTable} {rest : List JoinTerm}
  {rows : List (List (List Value))}

/-- With one condition per table behind the first, the code tests all the conditions. -/
theorem guards_conditions (h : rest.length ≤ 1) (schema : Schema) (tables : List TableBinding) :
    (rest.getLast?.toList.map fun j => compilePred j.on schema tables 1) ++
      whereGuards select schema tables =
    (select.conditions rest).map fun e => compilePred e schema tables 1 := by
  unfold Select.conditions whereGuards
  match rest, h with
  | [], _ => rfl
  | [j], _ => rw [List.map_append]; rfl

/-- One table, or two joined ones. -/
theorem join_returns (hrest : rest.length ≤ 1) (hfrom : select.«from» = some (joinChain first rest))
    (hgroup : select.groupBy = []) (horder : select.orderBy = [])
    (hcols : ∀ col ∈ select.columns, col.Plain db.schema (chainTables first rest))
    (hconds : ∀ e ∈ select.conditions rest,
      e.Comparison db.schema (bindings (chainTables first rest)))
    (hrows : List.Forall₂ (Vdbe.HasRows db) (chainTables first rest) rows) :
    ∃ prog, compileSelect select db.schema = .ok prog ∧
      Vdbe.Returns (Vdbe.fresh prog db)
        (coded select db.schema (bindings (chainTables first rest)) rest rows) := by
  have htables := Vdbe.HasRows.found hrows
  have hloaded := fun col hcol => plain_loaded htables (hcols col hcol)
  have hfun : ∀ c ∈ select.columns, isFunction c.expr = false := by
    intro c hc
    rcases hcols c hc with ⟨-, hstar⟩ | h
    · rw [hstar]
      rfl
    · exact (operand_cases h).1
  obtain ⟨plan, hplan, hsources, hwidth, houtput, hagg⟩ :=
    buildSelectPlan_plain hfun (fun c hc => (hloaded c hc).found) horder
  obtain ⟨prog, hprog, hcode⟩ : ∃ prog, compileSelect select db.schema = .ok prog ∧
      prog.insns = selectCode (bindings (chainTables first rest)) _ _ select plan _ :=
    ⟨_, compileSelect_chain hfrom htables hplan (simpleCountStar_none _ hfun) hagg, rfl⟩
  refine ⟨prog, hprog, ?_⟩
  rw [guards_conditions hrest, hgroup, horder] at hcode
  have htests : List.Forall₂ (Vdbe.Tests (chainTables first rest).length)
      ((select.conditions rest).map fun e =>
        compilePred e db.schema (bindings (chainTables first rest)) 1)
      ((select.conditions rest).map fun e t =>
        e.satisfied db.schema (bindings (chainTables first rest)) t) := by
    rw [List.forall₂_map_left_iff, List.forall₂_map_right_iff, List.forall₂_same]
    exact fun e he => Vdbe.comparison_tests (hconds e he)
  have hload : Vdbe.Loads (chainTables first rest).length
      (compileRowLoad plan (bindings (chainTables first rest)) db.schema) _ :=
    Vdbe.load_loads fun src hsrc => by
      rw [hsources] at hsrc
      obtain ⟨col, hcol, hsrc⟩ := List.mem_flatMap.mp hsrc
      exact (hloaded col hcol).one src hsrc
  rw [hsources] at hload
  have hlen : rows.length ≤ 2 := by
    rw [← hrows.length_eq, chainTables, List.length_cons, List.length_map]
    omega
  have hrun := Vdbe.chain_returns hrows (List.cons_ne_nil _ _) htests hload
    (fun t => by rw [List.length_map, hwidth, hsources]) houtput hcode
  rw [looped_eq_tuples hlen] at hrun
  simpa [Vdbe.selected, coded, List.all_map, Function.comp_def] using hrun

/-- The rows are the right ones if no tuple satisfies the conditions, or if every
literal among the result columns survives its instruction. -/
theorem coded_eq_joined_iff (htables : ∀ t ∈ chainTables first rest, (db.schema.table t.name).isSome)
    (hcols : ∀ col ∈ select.columns, col.Plain db.schema (chainTables first rest)) :
    coded select db.schema (bindings (chainTables first rest)) rest rows =
      select.joined db.schema (bindings (chainTables first rest)) rest rows ↔
    (∀ t ∈ tuples rows, ∃ e ∈ select.conditions rest,
      e.satisfied db.schema (bindings (chainTables first rest)) t = false) ∨
    ∀ col ∈ select.columns, col.expr.Fits := by
  have hrow : ∀ t, (select.columns.flatMap
      (columnSources db.schema (bindings (chainTables first rest)))).map
        (Vdbe.sourceValue db.schema (bindings (chainTables first rest)) t) =
      select.project db.schema (bindings (chainTables first rest)) t ↔
      ∀ col ∈ select.columns, col.expr.Fits := by
    intro t
    rw [List.map_flatMap, Select.project, flatMap_inj_of_length]
    · exact forall₂_congr fun col hcol => (plain_loaded htables (hcols col hcol)).values t
    · exact fun col hcol => (plain_loaded htables (hcols col hcol)).length t
  unfold coded Select.joined
  rw [List.map_inj_left]
  simp only [hrow, List.mem_filter, List.all_eq_true, and_imp]
  constructor
  · intro h
    by_cases hex : ∃ t ∈ tuples rows, ∀ e ∈ select.conditions rest,
        e.satisfied db.schema (bindings (chainTables first rest)) t = true
    · obtain ⟨t, ht, hsat⟩ := hex
      exact .inr (h t ht hsat)
    · refine .inl fun t ht => ?_
      by_contra hno
      push Not at hno
      exact hex ⟨t, ht, fun e he => by simpa using hno e he⟩
  · rintro (hno | hfits) t ht hsat
    · obtain ⟨e, he, hfalse⟩ := hno t ht
      rw [hsat e he] at hfalse
      cases hfalse
    · exact hfits

/-- A `SELECT` over one table or two joined ones, with one comparison for each
condition, returns the rows of the nested loops and is done, exactly when there are
none or every literal among its result columns survives its instruction. -/
theorem select_join_iff (hrest : rest.length ≤ 1)
    (hfrom : select.«from» = some (joinChain first rest))
    (hgroup : select.groupBy = []) (horder : select.orderBy = [])
    (hcols : ∀ col ∈ select.columns, col.Plain db.schema (chainTables first rest))
    (hconds : ∀ e ∈ select.conditions rest,
      e.Comparison db.schema (bindings (chainTables first rest)))
    (hrows : List.Forall₂ (Vdbe.HasRows db) (chainTables first rest) rows) :
    (∃ prog, compile (.ok (.select select)) db.schema = .ok prog ∧
      Vdbe.Finishes (Vdbe.fresh prog db)
        (select.joined db.schema (bindings (chainTables first rest)) rest rows)) ↔
    (∀ t ∈ tuples rows, ∃ e ∈ select.conditions rest,
      e.satisfied db.schema (bindings (chainTables first rest)) t = false) ∨
    ∀ col ∈ select.columns, col.expr.Fits := by
  obtain ⟨prog, hprog, hrun⟩ := join_returns hrest hfrom hgroup horder hcols hconds hrows
  rw [← coded_eq_joined_iff (Vdbe.HasRows.found hrows) hcols]
  constructor
  · rintro ⟨prog', hprog', hout⟩
    cases hprog.symm.trans hprog'
    exact hrun.finishes.unique hout
  · intro heq
    exact ⟨prog, hprog, heq ▸ hrun.finishes⟩

end

/-! ### One row -/

/-- The rows of the table with one row. -/
def oneRow : List (List Value) :=
  (scanned [Btree.rowLeaf 2 1 oneRecord]).map Vdbe.rowValues

theorem oneRow_has [Unicode] {t : FromTable} (ht : oneRowDb.schema.table t.name = some tableA) :
    Vdbe.HasRows oneRowDb t oneRow :=
  ⟨tableA, ht, BtreeCursor.delivers_tree oneRowDb_ready oneRowDb_tree (by decide +kernel)⟩

/-- `SELECT columns FROM t`, `SELECT columns FROM t JOIN t AS b ON on`, .. -/
def selectFrom (columns : List Expr) (rest : List JoinTerm) : Select where
  distinct := false
  columns := columns.map fun e => { expr := e, «alias» := none }
  «from» := some (joinChain { name := "t", «alias» := none } rest)
  whereClause := none
  groupBy := []
  having := none
  orderBy := []
  limit := none
  offset := none

/-- `JOIN t AS b ON t.a = b.a`. -/
def joinB : JoinTerm where
  table := { name := "t", «alias» := some "b" }
  on := .binaryOp .eq (.qualifiedIdent "t" "a") (.qualifiedIdent "b" "a")

theorem select_join_iff_two :
    let _ := Unicode.ascii
    let select := selectFrom [.qualifiedIdent "b" "a", .integer 7] [joinB]
    let tables := bindings (chainTables { name := "t", «alias» := none } [joinB])
    (∃ prog, compile (.ok (.select select)) oneRowDb.schema = .ok prog ∧
      Vdbe.Finishes (Vdbe.fresh prog oneRowDb)
        (select.joined oneRowDb.schema tables [joinB] [oneRow, oneRow])) ↔
    (∀ t ∈ tuples [oneRow, oneRow], ∃ e ∈ select.conditions [joinB],
      e.satisfied oneRowDb.schema tables t = false) ∨
    ∀ col ∈ select.columns, col.expr.Fits := by
  intro _ select tables
  have ha : oneRowDb.schema.table "t" = some tableA := by decide +kernel
  have hcols : ∀ col ∈ select.columns,
      col.Plain oneRowDb.schema (chainTables { name := "t", «alias» := none } [joinB]) := by
    intro col hcol
    obtain rfl | rfl : col = _ ∨ col = _ := by simpa [select, selectFrom] using hcol
    · exact .inr (.inl (by decide +kernel))
    · exact .inr (.inr rfl)
  have hconds : ∀ e ∈ select.conditions [joinB], e.Comparison oneRowDb.schema tables := by
    intro e he
    obtain rfl : e = joinB.on := by simpa [select, selectFrom, Select.conditions] using he
    exact .mk (.inl rfl) (.inl (by decide +kernel)) (.inl (by decide +kernel))
  exact select_join_iff (Nat.le_refl 1) rfl rfl rfl hcols hconds
    (.cons (oneRow_has ha) (.cons (oneRow_has ha) .nil))

/-- 5000000000 comes out as 705032704. -/
theorem select_truncates : let _ := Unicode.ascii
    let select := selectFrom [.integer 5000000000] []
    let tables := bindings (chainTables { name := "t", «alias» := none } [])
    select.«from» = some (joinChain { name := "t", «alias» := none } []) ∧
    select.groupBy = [] ∧ select.orderBy = [] ∧
    (∀ col ∈ select.columns,
      col.Plain oneRowDb.schema (chainTables { name := "t", «alias» := none } [])) ∧
    (∀ e ∈ select.conditions [], e.Comparison oneRowDb.schema tables) ∧
    List.Forall₂ (Vdbe.HasRows oneRowDb) (chainTables { name := "t", «alias» := none } []) [oneRow] ∧
    ¬ ∃ prog, compile (.ok (.select select)) oneRowDb.schema = .ok prog ∧
      Vdbe.Finishes (Vdbe.fresh prog oneRowDb)
        (select.joined oneRowDb.schema tables [] [oneRow]) := by
  intro _ select tables
  have hcols : ∀ col ∈ select.columns,
      col.Plain oneRowDb.schema (chainTables { name := "t", «alias» := none } []) := by
    intro col hcol
    obtain rfl : col = _ := by simpa [select, selectFrom] using hcol
    exact .inr (.inr rfl)
  have hconds : ∀ e ∈ select.conditions [], e.Comparison oneRowDb.schema tables :=
    fun e he => (nomatch he)
  have hrows : List.Forall₂ (Vdbe.HasRows oneRowDb)
      (chainTables { name := "t", «alias» := none } []) [oneRow] :=
    .cons (oneRow_has (by decide +kernel)) .nil
  refine ⟨rfl, rfl, rfl, hcols, hconds, hrows, ?_⟩
  rintro ⟨prog, hprog, hout⟩
  obtain ⟨prog', hprog', hrun⟩ := join_returns
    (show ([] : List JoinTerm).length ≤ 1 from Nat.zero_le 1) rfl rfl rfl hcols hconds hrows
  cases hprog.symm.trans hprog'
  have heq := hrun.finishes.unique hout
  revert heq
  decide +kernel

example : let _ := Unicode.ascii
    (compile (.ok (.select (selectFrom [.qualifiedIdent "b" "a"] [joinB]))) oneRowDb.schema).toOption.map (fun prog =>
      outcome (Vdbe.rows 30 30) (Vdbe.fresh prog oneRowDb)) = some (.ok [[.integer 1]]) := by
  decide +kernel

end Sqllite
