import Sqllite.Lib.Groups
import Sqllite.L4Vdbe.Results

/-!
# Groups and aggregates

What the select list of an aggregate query names (`SelectEntry`), what `build_select_plan`
makes of it, and what the program does behind its scans: `GroupBy`, the sort, and
the rows of the buffer one by one. The rows that were scanned are a parameter, with
what of them is in the buffer.

* `buildSelectPlan_groups`: where the plan finds keys and arguments in a buffered row.
* `applyGroupBy_groups`: one row for each text of a key, made of the rows that have it.
* `Compiled.returns`: from the end of the scans on, the statement returns the buffer.
-/
namespace Sqllite
open Lib Lib.Run Lib.Machine Lib.Groups

/-! ## Select lists with aggregates -/

/-- An entry of the select list: a column, or a function of a column or of the rows. -/
inductive SelectEntry where
  | column (c : ColumnRef)
  | agg (func : AggFunc) (arg : Option ColumnRef)
  deriving DecidableEq

/-- The function of an entry, and the column it is of. -/
def SelectEntry.agg? : SelectEntry → Option (AggFunc × Option ColumnRef)
  | .column _ => none
  | .agg func arg => some (func, arg)

/-- What an aggregate comes to on these tuples of rows. -/
def aggregated (func : AggFunc) (arg : Option ColumnRef) (tuples : List (List (List Value))) : Value :=
  (tuples.foldl (fun st t => st.step func (arg.map (·.value t))) AggState.new).finalize func

/-- What an entry says of a group: its column in the first tuple, or the aggregate of all. -/
def SelectEntry.value (tuples : List (List (List Value))) : SelectEntry → Value
  | .column c => c.value (tuples.headD [])
  | .agg func arg => aggregated func arg tuples

section
variable [Unicode] (schema : Schema) (tables : List TableBinding)

/-- The column that an aggregate is of, none for `COUNT(*)`. -/
def argColumn (func : AggFunc) (args : List Expr) : Result (Option ColumnRef) :=
  match func, args with
  | .count, [.star] => .ok none
  | _, [] => fail .error "an argument is required"
  | _, arg :: _ => do
    let c ← resolveExprColumn arg schema tables
    pure (some c)

/-- What an entry of the select list names. -/
def ResultColumn.entry (col : ResultColumn) : Result SelectEntry :=
  match col.expr with
  | .function name _ args => do
    let func ← parseAggFunc name
    let arg ← argColumn schema tables func args
    pure (.agg func arg)
  | expr => do
    let c ← resolveExprColumn expr schema tables
    pure (.column c)

/-- The columns of the GROUP BY clause. -/
def Select.groupColumns (select : Select) : Result (List ColumnRef) :=
  select.groupBy.mapM fun e => resolveExprColumn e schema tables

/-- The entries of the select list. -/
def Select.entries (select : Select) : Result (List SelectEntry) :=
  select.columns.mapM (ResultColumn.entry schema tables)

end

/-! ## The plan -/

/-- The column is at that place among the sources. -/
def At (sources : List RowSource) (i : Nat) (c : ColumnRef) : Prop := sources[i]? = some (.column c)

/-- The aggregate is this function of that column, which is among the sources. -/
structure AggAt (sources : List RowSource) (agg : AggSpec) (e : AggFunc × Option ColumnRef) : Prop where
  func : agg.func = e.1
  arg : Option.Rel (At sources) agg.colIndex e.2

section
variable {sources sources' : List RowSource} {i : Nat} {c : ColumnRef}

theorem At.mono (h : At sources i c) (hpre : sources <+: sources') : At sources' i c := by
  obtain ⟨rest, rfl⟩ := hpre
  obtain ⟨hlt, -⟩ := List.getElem?_eq_some_iff.mp h
  unfold At
  rw [List.getElem?_append_left hlt]
  exact h

theorem AggAt.mono {agg : AggSpec} {e : AggFunc × Option ColumnRef} (h : AggAt sources agg e)
    (hpre : sources <+: sources') : AggAt sources' agg e := by
  obtain ⟨hfunc, harg⟩ := h
  refine ⟨hfunc, ?_⟩
  revert harg
  cases agg.colIndex <;> cases e.2 <;> intro harg
  · exact .none
  · cases harg
  · cases harg
  · cases harg with
    | some h => exact .some (h.mono hpre)

/-- A column is pushed behind the sources, or is among them. -/
theorem pushUniqueColumn_spec (sources : List RowSource) (c : ColumnRef) :
    At (pushUniqueColumn sources c).1 (pushUniqueColumn sources c).2 c ∧
      sources <+: (pushUniqueColumn sources c).1 := by
  unfold pushUniqueColumn
  dsimp only
  split
  · next i hi =>
    obtain ⟨hlt, hat, -⟩ := List.findIdx?_eq_some_iff_getElem.mp hi
    refine ⟨?_, List.prefix_rfl⟩
    show sources[i]? = _
    rw [List.getElem?_eq_getElem hlt]
    revert hat
    cases sources[i] with
    | column c' =>
      intro hat
      rw [of_decide_eq_true hat]
    | expr e =>
      intro hat
      cases hat
  · exact ⟨by simp [At], List.prefix_append _ _⟩

variable [Unicode] {schema : Schema} {tables : List TableBinding} {keys keys' : List Nat}

theorem groupKeys_spec : ∀ {exprs : List Expr} {sources sources' : List RowSource}
    {keys keys' : List Nat}, groupKeys schema tables exprs sources keys = .ok (sources', keys') →
    ∃ cols new, exprs.mapM (fun e => resolveExprColumn e schema tables) = .ok cols ∧
      keys' = keys ++ new ∧ List.Forall₂ (At sources') new cols ∧ sources <+: sources'
  | [], sources, _, keys, _, h => by
    cases h
    exact ⟨[], [], rfl, (List.append_nil _).symm, .nil, List.prefix_rfl⟩
  | expr :: exprs, sources, sources', keys, keys', h => by
    rw [groupKeys] at h
    obtain ⟨c, hc, h⟩ := Res.bind_eq_ok.mp h
    obtain ⟨hat, hpre⟩ := pushUniqueColumn_spec sources c
    generalize pushUniqueColumn sources c = pushed at h hat hpre
    obtain ⟨cols, new, hcols, hkeys, hnew, hrest⟩ := groupKeys_spec h
    refine ⟨c :: cols, pushed.2 :: new, ?_, by rw [hkeys, List.append_assoc]; rfl,
      .cons (hat.mono hrest) hnew, hpre.trans hrest⟩
    rw [List.mapM_cons, hc, Res.ok_bind, hcols]
    rfl

theorem aggColumn_spec {name : String} {func : AggFunc} {args : List Expr} {idx : Option Nat}
    (h : aggColumn schema tables name func args sources = .ok (sources', idx)) :
    ∃ arg, argColumn schema tables func args = .ok arg ∧ Option.Rel (At sources') idx arg ∧
      sources <+: sources' := by
  have hpush : ∀ arg : Expr, (do
      let col ← resolveExprColumn arg schema tables
      pure ((pushUniqueColumn sources col).1, some (pushUniqueColumn sources col).2) : Result _) = .ok (sources', idx) →
      ∃ c, resolveExprColumn arg schema tables = .ok c ∧ Option.Rel (At sources') idx (some c) ∧
        sources <+: sources' := by
    intro arg h
    obtain ⟨c, hc, h⟩ := Res.bind_eq_ok.mp h
    obtain ⟨hat, hpre⟩ := pushUniqueColumn_spec sources c
    cases h
    exact ⟨c, hc, .some hat, hpre⟩
  unfold aggColumn at h
  unfold argColumn
  split at h
  · cases h
    exact ⟨none, rfl, .none, List.prefix_rfl⟩
  · cases h
  · cases h
  · next arg rest hstar =>
    obtain ⟨c, hc, hrel, hpre⟩ := hpush _ h
    refine ⟨some c, ?_, hrel, hpre⟩
    split
    · next hargs =>
      cases hargs
      exact absurd rfl (hstar rfl rfl)
    · next hargs => cases hargs
    · next hargs =>
      cases hargs
      rw [hc]
      rfl

theorem aggColumns_spec : ∀ {cols : List ResultColumn} {sources sources' : List RowSource}
    {aggs aggs' : List AggSpec}, aggColumns schema tables keys cols sources aggs = .ok (sources', aggs') →
    ∃ entries new, cols.mapM (ResultColumn.entry schema tables) = .ok entries ∧ aggs' = aggs ++ new ∧
      List.Forall₂ (AggAt sources') new (entries.filterMap SelectEntry.agg?) ∧ sources <+: sources'
  | [], sources, _, aggs, _, h => by
    cases h
    exact ⟨[], [], rfl, (List.append_nil _).symm, .nil, List.prefix_rfl⟩
  | col :: cols, sources, sources', aggs, aggs', h => by
    rw [aggColumns] at h
    split at h
    · next name d args hexpr =>
      obtain ⟨func, hfunc, h⟩ := Res.bind_eq_ok.mp h
      obtain ⟨⟨sources1, idx⟩, hagg, h⟩ := Res.bind_eq_ok.mp h
      obtain ⟨arg, harg, hat, hpre⟩ := aggColumn_spec hagg
      obtain ⟨entries, new, hentries, haggs, hnew, hrest⟩ := aggColumns_spec h
      have hhead : AggAt sources1 { func := func, colIndex := idx } (func, arg) := ⟨rfl, hat⟩
      have hentry : ResultColumn.entry schema tables col = .ok (.agg func arg) := by
        unfold ResultColumn.entry
        rw [hexpr]
        simp only [hfunc, harg, Res.ok_bind, Res.pure_eq]
      refine ⟨.agg func arg :: entries, { func := func, colIndex := idx } :: new, ?_,
        by rw [haggs, List.append_assoc]; rfl, .cons (hhead.mono hrest) hnew, hpre.trans hrest⟩
      rw [List.mapM_cons, hentry, Res.ok_bind, hentries]
      rfl
    · next hne =>
      obtain ⟨c, hc, h⟩ := Res.bind_eq_ok.mp h
      split at h
      · obtain ⟨entries, new, hentries, haggs, hnew, hrest⟩ := aggColumns_spec h
        have hentry : ResultColumn.entry schema tables col = .ok (.column c) := by
          unfold ResultColumn.entry
          split
          · next heq => exact absurd heq (hne _ _ _)
          · rw [hc]
            rfl
        refine ⟨.column c :: entries, new, ?_, haggs, hnew, hrest⟩
        rw [List.mapM_cons, hentry, Res.ok_bind, hentries]
        rfl
      · cases h

/-- What the plan of an aggregate query says of its GROUP BY columns and its select list. -/
structure Planned (plan : SelectPlan) (spec : GroupBySpec) (cols : List ColumnRef)
    (entries : List SelectEntry) : Prop where
  groups : plan.groupSpec = some spec
  aggregates : plan.hasAggregates = true
  width : plan.outputWidth = entries.length
  keys : List.Forall₂ (At plan.rowSources) spec.keyIndices cols
  aggs : List.Forall₂ (AggAt plan.rowSources) spec.aggs (entries.filterMap SelectEntry.agg?)

/-- Where the plan finds keys and arguments in a buffered row. -/
theorem buildSelectPlan_groups {select : Select} {plan : SelectPlan}
    (h : buildSelectPlan select schema tables = .ok plan)
    (hagg : (select.columns.any fun c => isFunction c.expr) = true) :
    ∃ spec cols entries, select.groupColumns schema tables = .ok cols ∧
      select.entries schema tables = .ok entries ∧ Planned plan spec cols entries := by
  unfold buildSelectPlan at h
  obtain ⟨⟨sources, spec?⟩, hsources, h⟩ := Res.bind_eq_ok.mp h
  obtain ⟨sort, -, h⟩ := Res.bind_eq_ok.mp h
  rw [hagg, planSources, if_pos rfl] at hsources
  obtain ⟨⟨keySources, keys⟩, hkeys, hsources⟩ := Res.bind_eq_ok.mp hsources
  obtain ⟨⟨aggSources, aggs⟩, haggs, hsources⟩ := Res.bind_eq_ok.mp hsources
  cases hsources
  obtain ⟨cols, new, hcols, rfl, hnew, -⟩ := groupKeys_spec hkeys
  obtain ⟨entries, new', hentries, rfl, hnew', hpre⟩ := aggColumns_spec haggs
  have hlen : entries.length = select.columns.length := (Res.mapM_eq_ok.mp hentries).length_eq.symm
  cases h
  refine ⟨_, cols, entries, hcols, hentries, rfl, hagg, ?_, hnew.imp fun _ _ hat => hat.mono hpre, hnew'⟩
  show (if (select.columns.any fun c => isFunction c.expr) = true then _ else _) = _
  rw [if_pos hagg, hlen]

/-- Without a function there are no groups. -/
theorem buildSelectPlan_plain_groups {select : Select} {plan : SelectPlan}
    (h : buildSelectPlan select schema tables = .ok plan)
    (hagg : (select.columns.any fun c => isFunction c.expr) = false) :
    plan.hasAggregates = false ∧ plan.outputWidth = plan.rowSources.length := by
  unfold buildSelectPlan at h
  obtain ⟨⟨sources, spec?⟩, -, h⟩ := Res.bind_eq_ok.mp h
  obtain ⟨sort, -, h⟩ := Res.bind_eq_ok.mp h
  cases h
  refine ⟨hagg, ?_⟩
  show (if (select.columns.any fun c => isFunction c.expr) = true then _ else _) = _
  rw [hagg]
  rfl

end

/-! ## Groups -/

/-- A row that was scanned: the rows of the tables, and what of them is in the buffer.
Of a source that is no column it is any value. -/
structure ScannedRow (sources : List RowSource) where
  tuple : List (List Value)
  values : List Value
  holds : List.Forall₂ (fun src v => ∀ c, src = .column c → v = c.value tuple) sources values

/-- The value of a source that is a column. -/
def RowSource.value (tuple : List (List Value)) : RowSource → Value
  | .column c => c.value tuple
  | .expr _ => .null

/-- What is buffered of a tuple where every source is a column. -/
def ScannedRow.of (sources : List RowSource) (tuple : List (List Value)) : ScannedRow sources where
  tuple := tuple
  values := sources.map (RowSource.value tuple)
  holds := by
    rw [List.forall₂_map_right_iff]
    refine List.forall₂_same.mpr fun src _ c hc => ?_
    rw [hc]
    rfl

/-- The key of a row: what it has in the GROUP BY columns. -/
def ScannedRow.key {sources : List RowSource} (cols : List ColumnRef) (r : ScannedRow sources) :
    List Value := cols.map (·.value r.tuple)

/-- The text that `apply_group_by` makes of a key. -/
def keyText (key : List Value) : String :=
  (String.singleton '\x1f').intercalate (key.map (·.toText))

section
variable {sources : List RowSource} {i : Nat} {c : ColumnRef} {spec : GroupBySpec}
  {cols : List ColumnRef} {aggs : List (AggFunc × Option ColumnRef)}

theorem ScannedRow.get (r : ScannedRow sources) (h : At sources i c) :
    r.values[i]? = some (c.value r.tuple) := by
  obtain ⟨hlt, heq⟩ := List.getElem?_eq_some_iff.mp h
  have hlen := r.holds.length_eq
  have hval := (List.forall₂_iff_get.mp r.holds).2 i hlt (hlen ▸ hlt)
  rw [List.getElem?_eq_getElem (hlen ▸ hlt)]
  exact congrArg some (hval c heq)

theorem ScannedRow.keyVals (r : ScannedRow sources) {keys : List Nat}
    (h : List.Forall₂ (At sources) keys cols) :
    keys.map (fun i => r.values[i]?.getD .null) = r.key cols := by
  unfold ScannedRow.key
  induction h with
  | nil => rfl
  | cons hat _ ih => rw [List.map_cons, List.map_cons, ih, r.get hat, Option.getD_some]

theorem ScannedRow.arg (r : ScannedRow sources) {agg : AggSpec} {e : AggFunc × Option ColumnRef}
    (h : AggAt sources agg e) : agg.colIndex.bind (r.values[·]?) = e.2.map (·.value r.tuple) := by
  have harg := h.arg
  revert harg
  cases agg.colIndex <;> cases e.2 <;> intro harg
  · rfl
  · cases harg
  · cases harg
  · cases harg with
    | some hat => exact r.get hat

/-- The states of one group after one more row. -/
theorem states_step {α β γ : Type} (f : α → β → γ) (g : α → β) (l : List α) :
    (l.zip (l.map g)).map (fun (a, b) => f a b) = l.map fun a => f a (g a) := by
  induction l with
  | nil => rfl
  | cons a l ih => simp [ih]

theorem states_run {α β ρ κ : Type} (f : α → β → ρ → β) (l : List α) (k : κ) :
    ∀ (rows : List ρ) (g : α → β),
      rows.foldl (fun (e : κ × List β) r => (e.1, (l.zip e.2).map fun (a, b) => f a b r)) (k, l.map g) =
        (k, l.map fun a => rows.foldl (fun b r => f a b r) (g a))
  | [], _ => rfl
  | r :: rows, g => by
    rw [List.foldl_cons, states_step (fun a b => f a b r) g l, states_run f l k rows]
    rfl

/-- The rows that have one text. -/
def rowsOf (cols : List ColumnRef) (rows : List (ScannedRow sources)) (text : String) :
    List (ScannedRow sources) := group (fun r => keyText (r.key cols)) rows text

/-- The row that a group comes to: the key of its first row, and the aggregates. -/
def groupRow (cols : List ColumnRef) (aggs : List (AggFunc × Option ColumnRef))
    (rows : List (ScannedRow sources)) : List Value :=
  cols.map (·.value ((rows.map (·.tuple)).headD [])) ++
    aggs.map fun e => aggregated e.1 e.2 (rows.map (·.tuple))

theorem summary_groupRow (hkeys : List.Forall₂ (At sources) spec.keyIndices cols)
    (haggs : List.Forall₂ (AggAt sources) spec.aggs aggs) {rows : List (ScannedRow sources)}
    {e : List Value × List AggState}
    (h : summary (fun r : ScannedRow sources =>
        (spec.keyIndices.map fun i => r.values[i]?.getD .null, spec.aggs.map fun _ => AggState.new))
      (fun r e => (e.1, (spec.aggs.zip e.2).map fun (agg, st) =>
        st.step agg.func (agg.colIndex.bind (r.values[·]?)))) rows = some e) :
    (e.1 ++ (spec.aggs.zip e.2).map fun (agg, st) => st.finalize agg.func) =
      groupRow cols aggs rows := by
  cases rows with
  | nil => cases h
  | cons r rest =>
    rw [summary, states_run (fun (agg : AggSpec) (st : AggState) (r : ScannedRow sources) =>
      st.step agg.func (agg.colIndex.bind (r.values[·]?)))] at h
    cases h
    rw [r.keyVals hkeys, states_step (fun (agg : AggSpec) (st : AggState) => st.finalize agg.func)]
    refine congrArg (r.key cols ++ ·) ?_
    generalize spec.aggs = specs at haggs
    induction haggs with
    | nil => rfl
    | @cons agg e _ _ hat _ ih =>
      have hargs : ∀ st : AggState, (r :: rest).foldl (fun st r =>
          st.step agg.func (agg.colIndex.bind (r.values[·]?))) st =
          ((r :: rest).map (·.tuple)).foldl (fun st t => st.step e.1 (e.2.map (·.value t))) st := by
        intro st
        rw [List.foldl_map]
        refine List.foldl_ext _ _ _ fun st r _ => ?_
        rw [r.arg hat, hat.func]
      rw [List.map_cons, List.map_cons, ih, aggregated, ← hargs, hat.func]

/-- `apply_group_by`: a row for each text of a key. -/
theorem applyGroupBy_groups (hkeys : List.Forall₂ (At sources) spec.keyIndices cols)
    (haggs : List.Forall₂ (AggAt sources) spec.aggs aggs) (rows : List (ScannedRow sources)) :
    ∃ texts, Enumerates (fun r : ScannedRow sources => keyText (r.key cols)) rows texts ∧
      applyGroupBy spec (rows.map (·.values)) =
        texts.map fun text => groupRow cols aggs (rowsOf cols rows text) := by
  let label : ScannedRow sources → String := fun r => keyText (r.key cols)
  let new : ScannedRow sources → List Value × List AggState := fun r =>
    (spec.keyIndices.map fun i => r.values[i]?.getD .null, spec.aggs.map fun _ => AggState.new)
  let step : ScannedRow sources → List Value × List AggState → List Value × List AggState :=
    fun r e => (e.1, (spec.aggs.zip e.2).map fun (agg, st) =>
      st.step agg.func (agg.colIndex.bind (r.values[·]?)))
  have hfold : (rows.map (·.values)).foldl (addToGroup spec) ∅ = collect label new step rows := by
    rw [List.foldl_map]
    refine List.foldl_ext _ _ _ fun t r _ => ?_
    show t.insert (keyText (spec.keyIndices.map fun i => r.values[i]?.getD .null))
      (step r ((t.lookup (keyText (spec.keyIndices.map fun i => r.values[i]?.getD .null))).getD (new r))) = _
    rw [r.keyVals hkeys]
    rfl
  refine ⟨_, collect_keys label new step rows, ?_⟩
  rw [applyGroupBy, hfold]
  have hvalues := collect_values label new step rows
  generalize (collect label new step rows).keys = texts at hvalues
  generalize (collect label new step rows).values = entries at hvalues
  induction hvalues with
  | nil => rfl
  | cons h _ ih =>
    rw [List.map_cons, List.map_cons, ih]
    exact congrArg (· :: _) (summary_groupRow hkeys haggs h)

end

/-! ## From the end of the scans on -/

/-- A statement that the compiler accepts: the tables of its FROM clause, its plan and its
program. -/
structure Compiled [Unicode] (select : Select) (schema : Schema) (src : TableRef Select)
    (tables : List TableBinding) (plan : SelectPlan) (prog : Program) : Prop where
  source : select.«from» = some src
  bound : ∃ join n, collectFrom schema src [] none 0 = .ok (tables, join, n)
  planned : buildSelectPlan select schema tables = .ok plan
  compiled : compileSelect select schema = .ok prog

section
variable [Unicode] {select : Select} {schema : Schema} {src : TableRef Select}
  {tables : List TableBinding} {plan : SelectPlan} {prog : Program}

/-- The first `Rewind` goes to what follows the scans. -/
theorem Compiled.tail (h : Compiled select schema src tables plan prog)
    (hcount : simpleCountStar select src = none) :
    ∃ insn, prog.insns.find? (·.opcode = .rewind) = some insn ∧
      Placed prog.insns (Vdbe.address insn.p2)
        (tailCode (Vdbe.address insn.p2) select plan (needsBuffer select plan)) := by
  obtain ⟨join, n, hcollect⟩ := h.bound
  obtain ⟨tables', join', n', plan', cursor, scan, hcollect', hplan', hcode⟩ :=
    compileSelect_tail h.source hcount h.compiled
  cases hcollect.symm.trans hcollect'
  cases h.planned.symm.trans hplan'
  let start := tables.length + 1 + scan.length + 1
  refine ⟨{ opcode := .rewind, p1 := cursor, p2 := start }, ?_, ?_⟩
  · have htop : (openTables tables).insns.find? (·.opcode = .rewind) = none := by
      rw [List.find?_eq_none]
      intro insn hinsn
      have hmem : insn = { opcode := .init, p2 := 1 } ∨ insn ∈ openCode tables := by
        simpa [openTables, Program.emit, Program.emitAll, Program.new] using hinsn
      cases hmem with
      | inl h => simp [h]
      | inr h =>
        obtain ⟨table, -, rfl⟩ := List.mem_map.mp h
        simp
    rw [hcode, List.find?_append, htop]
    rfl
  · show Placed prog.insns (Vdbe.address (start : Nat)) (tailCode (Vdbe.address (start : Nat)) _ _ _)
    rw [Vdbe.address_nat, hcode]
    refine ⟨(openTables tables).insns ++ { opcode := .rewind, p1 := cursor, p2 := start } :: scan,
      [], by simp [start], ?_⟩
    have hhere := here_openTables tables
    unfold Program.here at hhere
    rw [List.length_append, hhere, List.length_cons]
    omega

end

namespace Vdbe

/-- The scans are done. Their rows are in the buffer, and the program goes on where its
first `Rewind` goes when there is no row; or the opcode `Count` has counted them. -/
inductive ScanDone (prog : Program) (buf : List (List Value)) (s : Machine) : Prop
  | buffered {insn : Insn} (hscan : prog.insns.find? (·.opcode = .rewind) = some insn)
      (hs : Buffered prog.insns buf s) (hpc : s.pc = address insn.p2)
  | counted {i : Nat} {insn : Insn} (hscan : prog.insns.find? (·.opcode = .rewind) = none)
      (hcount : prog.insns[i]? = some insn) (hop : insn.opcode = .count) (hidle : Idle s)
      (hcode : s.program.insns = prog.insns) (hpc : s.pc = i + 1)
      (hreg : s.regs[insn.p1.toNat]? = some (.integer (Int64.ofInt buf.length)))
      (hlt : buf.length < 2 ^ 63)

section
variable {select : Select} {schema : Schema} {src : TableRef Select} {tables : List TableBinding}
  {plan : SelectPlan} {prog : Program} {buf : List (List Value)} {s : Machine} {spec : GroupBySpec}
  {cols : List ColumnRef} {entries : List SelectEntry}

/-- The statement at the end of its scans, with these registers and these rows. -/
def behindScans (prog : Program) (db : Db) (regs : List Value) (buf : List (List Value)) : Machine :=
  { fresh prog db with
    pc := ((prog.insns.find? (·.opcode = .rewind)).map (address ·.p2)).getD 0
    regs := regs
    rowBuffer := buf }

theorem behindScans_done (db : Db) (regs : List Value)
    (hscan : (prog.insns.find? (·.opcode = .rewind)).isSome) :
    ScanDone prog buf (behindScans prog db regs buf) := by
  obtain ⟨insn, hinsn⟩ := Option.isSome_iff_exists.mp hscan
  refine .buffered hinsn ⟨⟨rfl, rfl⟩, rfl, rfl⟩ ?_
  show (Option.map _ _).getD 0 = _
  rw [hinsn]
  rfl

theorem ScanDone.idle (hs : ScanDone prog buf s) : Idle s := by
  cases hs with
  | buffered _ hbuf => exact hbuf.idle
  | counted _ _ _ hidle => exact hidle

variable [Unicode]

/-- Where the rows go through the buffer, they are in it. -/
theorem ScanDone.placed (h : Compiled select schema src tables plan prog)
    (hcount : simpleCountStar select src = none) (hs : ScanDone prog buf s) :
    Buffered prog.insns buf s ∧
      Placed prog.insns s.pc (tailCode s.pc select plan (needsBuffer select plan)) := by
  obtain ⟨insn, hscan, hplaced⟩ := h.tail hcount
  cases hs with
  | buffered hscan' hbuf hpc =>
    cases hscan.symm.trans hscan'
    exact ⟨hbuf, hpc ▸ hplaced⟩
  | counted hscan' => cases hscan.symm.trans hscan'

/-- Without aggregates the buffer is sorted and returned. -/
theorem ScanDone.returns_plain (h : Compiled select schema src tables plan prog)
    (hcount : simpleCountStar select src = none) (hagg : plan.hasAggregates = false)
    (hbuf : needsBuffer select plan = true) (hs : ScanDone prog buf s) :
    Returns s (shown plan.outputWidth s.regs (ordered select plan buf)) := by
  obtain ⟨hs, hp⟩ := hs.placed h hcount
  rw [tailCode_plain hagg, hbuf] at hp
  exact results_return hs hp

/-- With aggregates the groups are formed first. -/
theorem ScanDone.groups (h : Compiled select schema src tables plan prog)
    (hcount : simpleCountStar select src = none) (hplan : Planned plan spec cols entries)
    (hs : ScanDone prog buf s) :
    ∃ t, (∀ fuel, round fuel s = .ok none t) ∧ t.rowBuffer = applyGroupBy spec buf ∧
      Returns t (shown plan.outputWidth s.regs (ordered select plan (applyGroupBy spec buf))) := by
  obtain ⟨hs, hp⟩ := hs.placed h hcount
  have hneeds : needsBuffer select plan = true := by
    rw [needsBuffer, hplan.aggregates, Bool.or_true]
  have hgroup : groupCode plan = [{ opcode := .groupBy, p1 := plan.rowWidth, p4 := .groupBy spec }] := by
    unfold groupCode
    rw [hplan.aggregates, hplan.groups]
  rw [tailCode, hgroup, hneeds] at hp
  let t : Machine := { s.moveTo (s.pc + 1) s.regs with
    rowBuffer := applyGroupBy spec s.rowBuffer, bufferIdx := 0 }
  have hrun : ∀ fuel, round fuel s = .ok none t :=
    fun fuel => round_continue (hs.code ▸ hp.left.head) rfl
  have ht : Buffered prog.insns (applyGroupBy spec buf) t :=
    ⟨hs.idle, hs.code, congrArg (applyGroupBy spec) hs.buffer⟩
  exact ⟨t, hrun, ht.buffer, results_return ht hp.right⟩

end

end Vdbe

end Sqllite
