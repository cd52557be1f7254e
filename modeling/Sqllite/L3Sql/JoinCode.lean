import Sqllite.L3Sql.Join

/-!
# The code of a join

`compile_select` patches its jumps after the fact; here the program is written
down at once. A scan is a loop around a body (`loopCode`), the body of the outer
one is the inner one, and the inner one's body tests the conditions and emits the
row (`bodyCode`).

* `compileSelect_chain`: the program for a chain of joins without aggregates.
-/
namespace Sqllite
open Lib.Run

/-- A scan with the cursor, at address `start`: `body` for each row. -/
def loopCode (start : Nat) (cursor : Int) (body : List Insn) : List Insn :=
  { opcode := .rewind, p1 := cursor, p2 := (start + body.length + 2 : Nat) } ::
    (body ++ [{ opcode := .last, p1 := cursor, p2 := (start + 1 : Nat) }])

/-- The code of a condition, and the jump over the row. -/
def guardCode (next : Nat) (pred : List Insn) : List Insn :=
  pred ++ [{ opcode := .ifNot, p1 := 1, p2 := next }]

/-- The conditions, the row, what is done with it. -/
def bodyCode (next : Nat) (guards : List (List Insn)) (load : List Insn) (emit : Insn) : List Insn :=
  guards.flatMap (guardCode next) ++ (load ++ [emit])

/-- A body that begins at address `start`: its jumps go behind it. -/
def bodyAt (start : Nat) (guards : List (List Insn)) (load : List Insn) (emit : Insn) : List Insn :=
  bodyCode (start + (bodyCode 0 guards load emit).length) guards load emit

/-- What is done with a row: it is buffered, or returned. -/
def emitInsn (plan : SelectPlan) (needsBuffer : Bool) : Insn :=
  if needsBuffer then { opcode := .rowData, p1 := plan.rowWidth }
  else { opcode := .resultRow, p1 := plan.outputWidth }

/-- What follows the scans, from address `start` on. -/
def resultsCode (start : Nat) (select : Select) (plan : SelectPlan) (needsBuffer : Bool) : List Insn :=
  let sort : List Insn :=
    if select.orderBy.isEmpty then [] else [{ opcode := .sort, p4 := .sortKeys plan.sortKeys }]
  let here := start + sort.length
  let rows : List Insn :=
    if needsBuffer then
      [{ opcode := .bufferRewind, p2 := (here + 4 : Nat) },
        { opcode := .bufferNext, p2 := (here + 4 : Nat) },
        { opcode := .resultRow, p1 := plan.outputWidth }, { opcode := .goto, p2 := (here + 1 : Nat) }]
    else []
  sort ++ (rows ++ [{ opcode := .halt }])

/-- The step that forms the groups, where the statement has aggregates. -/
def groupCode (plan : SelectPlan) : List Insn :=
  match plan.hasAggregates, plan.groupSpec with
  | true, some spec => [{ opcode := .groupBy, p1 := plan.rowWidth, p4 := .groupBy spec }]
  | _, _ => []

/-- What follows the scans, with the groups. -/
def tailCode (start : Nat) (select : Select) (plan : SelectPlan) (needsBuffer : Bool) : List Insn :=
  groupCode plan ++ resultsCode (start + (groupCode plan).length) select plan needsBuffer

theorem tailCode_plain {plan : SelectPlan} (h : plan.hasAggregates = false) (start : Nat)
    (select : Select) (needsBuffer : Bool) :
    tailCode start select plan needsBuffer = resultsCode start select plan needsBuffer := by
  have hgroup : groupCode plan = [] := by
    unfold groupCode
    rw [h]
  rw [tailCode, hgroup]
  rfl

/-- The scans: one loop, or two loops one in the other. -/
def scansCode (start : Nat) (joined : Bool) (guards : List (List Insn)) (load : List Insn)
    (emit : Insn) : List Insn :=
  if joined then loopCode start 0 (loopCode (start + 1) 1 (bodyAt (start + 2) guards load emit))
  else loopCode start 0 (bodyAt (start + 1) guards load emit)

/-- `OpenRead` for each table. -/
def openCode (tables : List TableBinding) : List Insn :=
  tables.map fun table => { opcode := .openRead, p1 := table.cursor, p4 := .string table.name }

/-- The whole program for these tables. -/
def selectCode (tables : List TableBinding) (guards : List (List Insn)) (load : List Insn)
    (select : Select) (plan : SelectPlan) (needsBuffer : Bool) : List Insn :=
  let start := tables.length + 1
  let scans := scansCode start (1 < tables.length) guards load (emitInsn plan needsBuffer)
  { opcode := .init, p2 := 1 } :: (openCode tables ++ (scans ++
    resultsCode (start + scans.length) select plan needsBuffer))

/-! ## Lengths -/

theorem guardCode_length (next : Nat) (pred : List Insn) :
    (guardCode next pred).length = pred.length + 1 := by
  simp [guardCode]

theorem bodyCode_length (next next' : Nat) (guards : List (List Insn)) (load : List Insn)
    (emit : Insn) :
    (bodyCode next guards load emit).length = (bodyCode next' guards load emit).length := by
  simp only [bodyCode, List.length_append, List.length_flatMap, guardCode_length]

theorem bodyAt_length (start : Nat) (guards : List (List Insn)) (load : List Insn) (emit : Insn) :
    (bodyAt start guards load emit).length = (bodyCode 0 guards load emit).length :=
  bodyCode_length _ _ _ _ _

theorem loopCode_length (start : Nat) (cursor : Int) (body : List Insn) :
    (loopCode start cursor body).length = body.length + 2 := by
  simp [loopCode]

/-! ## What the compiler emits -/

namespace Program

theorem patchP2_emitAll (prog : Program) (pre post : List Insn) (insn : Insn) {addr : Nat}
    (h : prog.here + pre.length = addr) (target : Int) :
    (prog.emitAll (pre ++ insn :: post)).patchP2 addr target =
      prog.emitAll (pre ++ { insn with p2 := target } :: post) := by
  have hsplit : (prog.emitAll (pre ++ insn :: post)).insns = (prog.insns ++ pre) ++ insn :: post := by
    simp
  have hlen : (prog.insns ++ pre).length = addr := by
    rw [List.length_append]
    exact h
  have hpatch := patchP2_insns hsplit hlen target
  refine (congrArg (fun insns => { prog with insns := insns }) hpatch).trans ?_
  simp [emitAll]

theorem emitAll_emitAll (prog : Program) (a b : List Insn) :
    (prog.emitAll a).emitAll b = prog.emitAll (a ++ b) := by
  simp [emitAll]

theorem here_emitAll (prog : Program) (a : List Insn) :
    (prog.emitAll a).here = prog.here + a.length := by
  simp [here]

end Program

/-- The step that forms the groups comes first. -/
theorem compileResults_grouped (prog : Program) (select : Select) (plan : SelectPlan)
    (needsBuffer : Bool) : compileResults prog select plan needsBuffer =
      compileResults (prog.emitAll (groupCode plan)) select { plan with hasAggregates := false }
        needsBuffer := by
  have hnil : prog.emitAll [] = prog := by simp [Program.emitAll]
  unfold compileResults groupCode
  cases plan.hasAggregates with
  | false => simp only [hnil]
  | true =>
    cases plan.groupSpec with
    | none => simp only [hnil]
    | some spec => rfl

/-- Then come the order and the buffer. -/
theorem compileResults_eq (prog : Program) (select : Select) (plan : SelectPlan)
    (needsBuffer : Bool) :
    (compileResults prog select plan needsBuffer).emit { opcode := .halt } =
      prog.emitAll (tailCode prog.here select plan needsBuffer) := by
  rw [compileResults_grouped, tailCode, ← Program.emitAll_emitAll, ← Program.here_emitAll]
  generalize prog.emitAll (groupCode plan) = prog
  let sort : List Insn :=
    if select.orderBy.isEmpty then [] else [{ opcode := .sort, p4 := .sortKeys plan.sortKeys }]
  have hsort : (if select.orderBy.isEmpty then prog
      else prog.emit { opcode := .sort, p4 := .sortKeys plan.sortKeys }) = prog.emitAll sort := by
    dsimp only [sort]
    split
    · simp [Program.emitAll]
    · rfl
  have hfinish : ∀ sorted : Program, (if needsBuffer then
      let rewindAddr := sorted.here
      let prog := sorted.emit { opcode := .bufferRewind }
      let emitRow := prog.here
      let prog := prog.emit { opcode := .bufferNext }
      let prog := prog.emit { opcode := .resultRow, p1 := plan.outputWidth }
      let prog := prog.emit { opcode := .goto, p2 := emitRow }
      let haltAddr := prog.here
      (prog.patchP2 rewindAddr haltAddr).patchP2 emitRow haltAddr
      else sorted) = sorted.emitAll (if needsBuffer then
        [{ opcode := .bufferRewind, p2 := (sorted.here + 4 : Nat) },
          { opcode := .bufferNext, p2 := (sorted.here + 4 : Nat) },
          { opcode := .resultRow, p1 := plan.outputWidth },
          { opcode := .goto, p2 := (sorted.here + 1 : Nat) }] else []) := by
    intro sorted
    have hrewind := fun target => Program.patchP2_emitAll sorted []
      [{ opcode := .bufferNext }, { opcode := .resultRow, p1 := plan.outputWidth },
        { opcode := .goto, p2 := (sorted.here + 1 : Nat) }]
      { opcode := .bufferRewind } rfl target
    have hnext := fun target => Program.patchP2_emitAll sorted
      [{ opcode := .bufferRewind, p2 := target }]
      [{ opcode := .resultRow, p1 := plan.outputWidth },
        { opcode := .goto, p2 := (sorted.here + 1 : Nat) }]
      { opcode := .bufferNext } rfl target
    cases needsBuffer with
    | false => simp [Program.emitAll]
    | true =>
      simp only [Program.emit, Program.emitAll_emitAll, Program.here_emitAll, List.nil_append,
        List.cons_append, List.length_cons, List.length_nil, Nat.add_zero, Nat.zero_add,
        Nat.reduceAdd, if_true] at hrewind hnext ⊢
      rw [hrewind, hnext]
  unfold compileResults
  dsimp only at hfinish ⊢
  rw [hsort, hfinish, Program.emit, Program.emitAll_emitAll, Program.emitAll_emitAll,
    Program.here_emitAll]
  rfl

/-- What `compile_select` does behind the scans, whose first `Rewind` is at `start`. -/
def finishSelect (prog : Program) (start : Nat) (select : Select) (plan : SelectPlan)
    (needsBuffer : Bool) : Program :=
  (compileResults (prog.patchP2 start prog.here) select plan needsBuffer).emit { opcode := .halt }

/-- The `Rewind` of the outer scan is patched to go behind the scans. -/
theorem finish_scans {top : Program} {start : Nat} (htop : top.here = start) (cursor : Int)
    (scan : List Insn) (select : Select) (plan : SelectPlan) (needsBuffer : Bool) :
    finishSelect ((top.emit { opcode := .rewind, p1 := cursor }).emitAll scan) start select plan
      needsBuffer = top.emitAll
        ({ opcode := .rewind, p1 := cursor, p2 := (start + scan.length + 1 : Nat) } ::
          (scan ++ tailCode (start + scan.length + 1) select plan needsBuffer)) := by
  have hhere : ((top.emit { opcode := .rewind, p1 := cursor }).emitAll scan).here =
      start + scan.length + 1 := by
    rw [Program.here_emitAll, Program.emit, Program.here_emitAll, htop, List.length_singleton]
    omega
  have hpatch : (top.emitAll ([] ++ { opcode := .rewind, p1 := cursor } :: scan)).patchP2 start
      (start + scan.length + 1 : Nat) = _ := Program.patchP2_emitAll top [] scan _ htop _
  have hemit : (top.emit { opcode := .rewind, p1 := cursor }).emitAll scan =
      top.emitAll ([] ++ { opcode := .rewind, p1 := cursor } :: scan) := by
    rw [Program.emit, Program.emitAll_emitAll]
    rfl
  unfold finishSelect
  rw [hhere, hemit, hpatch, compileResults_eq, Program.here_emitAll, Program.emitAll_emitAll, htop]
  rfl

/-- What `compile_select` emits before the scans. -/
def openTables (tables : List TableBinding) : Program :=
  ({ Program.new with readOnly := true, nReg := 32 }.emit { opcode := .init, p2 := 1 }).emitAll
    (openCode tables)

theorem here_openTables (tables : List TableBinding) :
    (openTables tables).here = tables.length + 1 := by
  rw [openTables, Program.here_emitAll, openCode, List.length_map, Nat.add_comm]
  rfl

/-- A statement that counts the rows of a table has a function. -/
theorem simpleCountStar_none {select : Select} (src : TableRef Select)
    (hfun : ∀ c ∈ select.columns, isFunction c.expr = false) : simpleCountStar select src = none := by
  unfold simpleCountStar
  split
  · next col _ _ hcols =>
    have hcol := hfun col (hcols ▸ List.mem_cons_self)
    split
    · next hexpr =>
      rw [hexpr] at hcol
      cases hcol
    · rfl
  · rfl

section
variable [Unicode] {schema : Schema}

/-- The conditions of the WHERE clause. -/
def whereGuards (select : Select) (schema : Schema) (tables : List TableBinding) : List (List Insn) :=
  select.whereClause.toList.map fun w => compilePred w schema tables 1

theorem compileBody_eq (prog : Program) (select : Select) (tables : List TableBinding)
    (plan : SelectPlan) (needsBuffer : Bool) :
    compileBody prog select schema tables plan needsBuffer =
      (prog.emitAll (bodyCode 0 (whereGuards select schema tables)
          (compileRowLoad plan tables schema) (emitInsn plan needsBuffer)),
        select.whereClause.map fun w => prog.here + (compilePred w schema tables 1).length) := by
  unfold compileBody compileOptionalWhere emitScanResult whereGuards bodyCode emitInsn
  cases select.whereClause with
  | none => cases needsBuffer <;> simp [Program.emit, Program.emitAll_emitAll]
  | some w =>
    cases needsBuffer <;>
      simp [Program.emit, Program.emitAll_emitAll, Program.here_emitAll, guardCode]

/-- The jump of the WHERE clause is patched. -/
theorem patchOpt_body (prog : Program) (select : Select) (tables : List TableBinding)
    (load : List Insn) (emit : Insn) (target : Nat) :
    patchOpt (prog.emitAll (bodyCode 0 (whereGuards select schema tables) load emit))
        (select.whereClause.map fun w => prog.here + (compilePred w schema tables 1).length) target =
      prog.emitAll (bodyCode target (whereGuards select schema tables) load emit) := by
  unfold whereGuards
  cases select.whereClause with
  | none => rfl
  | some w =>
    have hpatch := Program.patchP2_emitAll prog (compilePred w schema tables 1)
      (load ++ [emit]) { opcode := .ifNot, p1 := 1, p2 := (0 : Nat) } rfl target
    simpa [patchOpt, bodyCode, guardCode] using hpatch

theorem compileScan_loop (prog : Program) (select : Select) (tables : List TableBinding)
    (plan : SelectPlan) (needsBuffer : Bool) (outer : TableBinding) (start : Nat)
    (h : prog.here = start + 1) :
    compileScan prog select schema tables plan needsBuffer outer start =
      prog.emitAll (bodyAt (start + 1) (whereGuards select schema tables)
        (compileRowLoad plan tables schema) (emitInsn plan needsBuffer) ++
        [{ opcode := .last, p1 := outer.cursor, p2 := (start + 1 : Nat) }]) := by
  unfold compileScan
  rw [compileBody_eq]
  simp only [Program.here_emitAll, patchOpt_body, Program.emit, Program.emitAll_emitAll]
  rw [h, bodyAt]

/-- The two loops but for the `Rewind` of the outer one, which is in front. -/
theorem compileJoin_loop (prog : Program) (select : Select) (tables : List TableBinding)
    (plan : SelectPlan) (needsBuffer : Bool) (on : Expr) (outer inner : TableBinding) (start : Nat)
    (h : prog.here = start + 1) :
    compileJoin prog select schema tables plan needsBuffer on outer inner start =
      prog.emitAll (loopCode (start + 1) inner.cursor (bodyAt (start + 2)
        (compilePred on schema tables 1 :: whereGuards select schema tables)
        (compileRowLoad plan tables schema) (emitInsn plan needsBuffer)) ++
        [{ opcode := .last, p1 := outer.cursor, p2 := (start + 1 : Nat) }]) := by
  generalize hg : whereGuards select schema tables = guards
  generalize hl : compileRowLoad plan tables schema = load
  generalize he : emitInsn plan needsBuffer = emit
  generalize hp : compilePred on schema tables 1 = pred
  have hbody : ∀ prog, compileBody prog select schema tables plan needsBuffer = _ :=
    fun prog => compileBody_eq prog select tables plan needsBuffer
  have hwhere : ∀ (prog : Program) (target : Nat), patchOpt (prog.emitAll (bodyCode 0 (whereGuards select schema tables)
      load emit)) _ target = _ :=
    fun prog target => patchOpt_body prog select tables load emit target
  simp only [hg, hl, he] at hbody hwhere
  let next := start + 2 + (bodyCode 0 (pred :: guards) load emit).length
  let top (target : Nat) : List Insn :=
    { opcode := .rewind, p1 := inner.cursor } :: guardCode target pred
  have htop : ∀ target, (prog.emitAll (top target)).here = start + 3 + pred.length := fun target => by
    rw [Program.here_emitAll, h, List.length_cons, guardCode_length]
    omega
  have hnext : next = start + 3 + pred.length + (bodyCode 0 guards load emit).length := by
    simp only [next, bodyCode, List.flatMap_cons, List.length_append, guardCode_length]
    omega
  -- the jump of the ON clause, then that of the WHERE clause, then that of the inner `Rewind`
  have hon : ((prog.emitAll (top 0)).emitAll (bodyCode 0 guards load emit)).patchP2
      (start + 2 + pred.length) next =
      (prog.emitAll (top next)).emitAll (bodyCode 0 guards load emit) := by
    have hat : prog.here + ({ opcode := .rewind, p1 := inner.cursor } :: pred).length =
        start + 2 + pred.length := by
      rw [h, List.length_cons]
      omega
    have hpatch := Program.patchP2_emitAll prog
      ({ opcode := .rewind, p1 := inner.cursor } :: pred)
      (bodyCode 0 guards load emit) { opcode := .ifNot, p1 := 1 } hat next
    simpa [Program.emitAll_emitAll, top, guardCode] using hpatch
  have hskip := hwhere (prog.emitAll (top next)) next
  have hrewind : ∀ post target, (prog.emitAll
      ({ opcode := .rewind, p1 := inner.cursor } :: post)).patchP2 (start + 1) target =
      prog.emitAll ({ opcode := .rewind, p1 := inner.cursor, p2 := target } :: post) :=
    fun post target => Program.patchP2_emitAll prog [] post { opcode := .rewind, p1 := inner.cursor }
      (by rw [h]; rfl) target
  have hprog : ((prog.emit { opcode := .rewind, p1 := inner.cursor }).emitAll pred).emit
      { opcode := .ifNot, p1 := 1 } = prog.emitAll (top 0) := by
    simp [Program.emit, Program.emitAll_emitAll, top, guardCode]
  have haddr : ((prog.emit { opcode := .rewind, p1 := inner.cursor }).emitAll pred).here =
      start + 2 + pred.length := by
    simp only [Program.emit, Program.here_emitAll, h, List.length_singleton]
  have hend : ((prog.emitAll (top 0)).emitAll (bodyCode 0 guards load emit)).here = next := by
    rw [Program.here_emitAll, htop, hnext]
  unfold compileJoin
  simp only [hp, hprog, haddr, hbody, hend]
  rw [hon, htop 0, ← htop next, hskip, h]
  have hfold : (prog.emitAll (top next)).emitAll (bodyCode next guards load emit) =
      prog.emitAll ({ opcode := .rewind, p1 := inner.cursor } ::
        bodyAt (start + 2) (pred :: guards) load emit) := by
    simp [Program.emitAll_emitAll, top, bodyAt, bodyCode, next]
  have hloop : (((prog.emitAll (top next)).emitAll (bodyCode next guards load emit)).emit
      { opcode := .last, p1 := inner.cursor, p2 := (start + 1 + 1 : Nat) }).here =
      start + 1 + (bodyAt (start + 2) (pred :: guards) load emit).length + 2 := by
    rw [hfold, Program.emit, Program.here_emitAll, Program.here_emitAll, h]
    simp only [List.length_cons, List.length_nil]
    omega
  rw [hloop, hfold]
  simp only [Program.emit, Program.emitAll_emitAll, List.cons_append, hrewind]
  rfl

/-- Whether the rows go through the buffer. -/
def needsBuffer (select : Select) (plan : SelectPlan) : Bool :=
  !select.groupBy.isEmpty || !select.orderBy.isEmpty || plan.hasAggregates

section
variable {select : Select} {src : TableRef Select} {tables : List TableBinding} {n : Int}
  {plan : SelectPlan} {outer : TableBinding}

theorem compileSelect_scan {join : Option JoinInfo} (hfrom : select.«from» = some src)
    (hcount : simpleCountStar select src = none)
    (hcollect : collectFrom schema src [] none 0 = .ok ([outer], join, n))
    (hplan : buildSelectPlan select schema [outer] = .ok plan) :
    compileSelect select schema = .ok (finishSelect
      (compileScan ((openTables [outer]).emit { opcode := .rewind, p1 := outer.cursor }) select schema
        [outer] plan (needsBuffer select plan) outer (openTables [outer]).here)
      (openTables [outer]).here select plan (needsBuffer select plan)) := by
  unfold compileSelect
  rw [hfrom]
  simp only [hcount, hcollect, Res.ok_bind, hplan]
  rfl

theorem compileSelect_join {inner : TableBinding} {rest : List TableBinding} {join : Option JoinInfo}
    {on : Expr} (htables : tables = outer :: inner :: rest) (hfrom : select.«from» = some src)
    (hcount : simpleCountStar select src = none)
    (hcollect : collectFrom schema src [] none 0 = .ok (tables, join, n))
    (hcond : joinCondition tables join = .ok (some on))
    (hplan : buildSelectPlan select schema tables = .ok plan) :
    compileSelect select schema = .ok (finishSelect
      (compileJoin ((openTables tables).emit { opcode := .rewind, p1 := outer.cursor }) select schema
        tables plan (needsBuffer select plan) on outer inner (openTables tables).here)
      (openTables tables).here select plan (needsBuffer select plan)) := by
  subst htables
  unfold compileSelect
  rw [hfrom]
  simp only [hcount, hcollect, Res.ok_bind, hplan, hcond]
  rfl

end

/-- The plan of a statement without functions and without an order. -/
theorem buildSelectPlan_plain {select : Select} {tables : List TableBinding}
    {g : ResultColumn → List RowSource} (hfun : ∀ c ∈ select.columns, isFunction c.expr = false)
    (hsrc : ∀ c ∈ select.columns, plainSources schema tables c = .ok (g c))
    (horder : select.orderBy = []) :
    ∃ plan, buildSelectPlan select schema tables = .ok plan ∧
      plan.rowSources = select.columns.flatMap g ∧ plan.rowWidth = plan.rowSources.length ∧
      plan.outputWidth = plan.rowWidth ∧ plan.hasAggregates = false := by
  have hany : (select.columns.any fun c => isFunction c.expr) = false := by
    rw [List.any_eq_false]
    exact fun c hc => by simp [hfun c hc]
  refine ⟨{ rowSources := select.columns.flatMap g, rowWidth := (select.columns.flatMap g).length
            outputWidth := (select.columns.flatMap g).length, hasAggregates := false
            groupSpec := none, sortKeys := [] }, ?_, rfl, rfl, rfl, rfl⟩
  unfold buildSelectPlan
  simp only [hany, planSources, Res.mapM_ok hsrc, horder, List.mapM_nil, Bool.false_eq_true,
    if_false, Res.ok_bind, Res.pure_eq, ← List.flatMap_def]

/-- The program for a chain of joins without aggregates: the conditions of all the
joins but the last one are left out, and so are the loops of all the tables but the
first two. -/
theorem compileSelect_chain {select : Select} {first : FromTable} {rest : List JoinTerm}
    {plan : SelectPlan} (hfrom : select.«from» = some (joinChain first rest))
    (h : ∀ t ∈ chainTables first rest, (schema.table t.name).isSome)
    (hplan : buildSelectPlan select schema (bindings (chainTables first rest)) = .ok plan)
    (hcount : simpleCountStar select (joinChain first rest) = none)
    (hagg : plan.hasAggregates = false) :
    compileSelect select schema = .ok
      { insns := selectCode (bindings (chainTables first rest))
          ((rest.getLast?.toList.map fun j =>
            compilePred j.on schema (bindings (chainTables first rest)) 1) ++
            whereGuards select schema (bindings (chainTables first rest)))
          (compileRowLoad plan (bindings (chainTables first rest)) schema) select plan
          (!select.groupBy.isEmpty || !select.orderBy.isEmpty)
        nReg := 32, readOnly := true } := by
  have hcollect := collectFrom_chain rest h
  generalize hb : bindings (chainTables first rest) = tables at hcollect hplan ⊢
  have htop := here_openTables tables
  have hplaced : ∀ c, ((openTables tables).emit { opcode := .rewind, p1 := c }).here =
      tables.length + 1 + 1 := fun c => by
    rw [Program.emit, Program.here_emitAll, htop, List.length_singleton]
  have hneeds : needsBuffer select plan = (!select.groupBy.isEmpty || !select.orderBy.isEmpty) := by
    rw [needsBuffer, hagg, Bool.or_false]
  have hfinish : ∀ body, finishSelect (((openTables tables).emit { opcode := .rewind, p1 := 0 }).emitAll
      (body ++ [{ opcode := .last, p1 := 0, p2 := (tables.length + 1 + 1 : Nat) }])) (tables.length + 1)
      select plan (needsBuffer select plan) = (openTables tables).emitAll
        (loopCode (tables.length + 1) 0 body ++
          resultsCode (tables.length + 1 + (loopCode (tables.length + 1) 0 body).length) select plan
            (needsBuffer select plan)) := by
    intro body
    rw [finish_scans htop, tailCode_plain hagg, loopCode_length, List.length_append]
    rfl
  rw [← hneeds]
  cases hrest : rest.getLast? with
  | none =>
    obtain rfl := List.getLast?_eq_none_iff.mp hrest
    obtain rfl : [first.bind 0] = tables := hb
    rw [compileSelect_scan hfrom hcount hcollect hplan, htop,
      compileScan_loop _ _ _ _ _ _ _ (hplaced _)]
    exact congrArg Except.ok (hfinish _)
  | some j =>
    cases rest with
    | nil => cases hrest
    | cons j' rest =>
      have htables : tables = first.bind 0 :: j'.table.bind 1 ::
          (rest.map (·.table)).mapIdx fun i => FromTable.bind (i + 2) := by
        rw [← hb]
        simp [bindings, chainTables, List.mapIdx_cons]
      have hjoined : decide (1 < tables.length) = true := by
        rw [htables]
        simp
      have hcond : joinCondition tables (some { joinType := .inner, on := some j.on }) =
          .ok (some j.on) := by
        unfold joinCondition
        rw [if_neg (by simpa using of_decide_eq_true hjoined)]
        rfl
      rw [hrest] at hcollect
      rw [compileSelect_join htables hfrom hcount hcollect hcond hplan, htop,
        compileJoin_loop _ _ _ _ _ _ _ _ _ (hplaced _)]
      refine congrArg Except.ok ((hfinish _).trans ?_)
      rw [selectCode, hjoined]
      rfl

/-- Each table of a FROM clause gets the next cursor. -/
theorem collectFrom_cursors (src : TableRef Select) : ∀ {tables tables' : List TableBinding} {join join' : Option JoinInfo}
    {n n' : Int}, collectFrom schema src tables join n = .ok (tables', join', n') →
      ∃ new, tables' = tables ++ new ∧ new ≠ [] ∧ new.map (·.cursor) = (List.range new.length).map (fun i : Nat => n + i) ∧
        n' = n + new.length := by
  induction src with
  | table name rename =>
    intro tables tables' join join' n n' h
    unfold collectFrom at h
    cases ht : schema.table name with
    | none =>
      rw [ht] at h
      cases h
    | some t =>
      rw [ht] at h
      cases h
      exact ⟨_, rfl, List.cons_ne_nil _ _, by simp [List.range_succ], rfl⟩
  | join left right joinType on ihl ihr =>
    intro tables tables' join join' n n' h
    rw [collectFrom] at h
    obtain ⟨⟨tables₁, join₁, n₁⟩, hleft, h⟩ := Res.bind_eq_ok.mp h
    obtain ⟨⟨tables₂, join₂, n₂⟩, hright, h⟩ := Res.bind_eq_ok.mp h
    cases h
    obtain ⟨new₁, rfl, hne, hcur₁, rfl⟩ := ihl hleft
    obtain ⟨new₂, rfl, -, hcur₂, rfl⟩ := ihr hright
    refine ⟨new₁ ++ new₂, List.append_assoc _ _ _, by simp [hne], ?_, ?_⟩
    · rw [List.map_append, hcur₁, hcur₂, List.length_append, List.range_add, List.map_append, List.map_map]
      simp [Function.comp_def, Int.add_assoc]
    · rw [List.length_append]
      omega
  | subquery q rename =>
    intro tables tables' join join' n n' h
    unfold collectFrom at h
    cases h

/-- The program of any statement that is no simple count: the tables are opened, the scans
of one or two of them follow, then what is done with the rows. -/
theorem compileSelect_layout {select : Select} {src : TableRef Select} {prog : Program}
    (hfrom : select.«from» = some src) (hcount : simpleCountStar select src = none)
    (h : compileSelect select schema = .ok prog) :
    ∃ tables join n plan guards, collectFrom schema src [] none 0 = .ok (tables, join, n) ∧
      buildSelectPlan select schema tables = .ok plan ∧ (∀ g ∈ guards, ∃ e, g = compilePred e schema tables 1) ∧
      let scans := scansCode (tables.length + 1) (1 < tables.length) guards (compileRowLoad plan tables schema)
        (emitInsn plan (needsBuffer select plan))
      prog = (openTables tables).emitAll
        (scans ++ tailCode (tables.length + 1 + scans.length) select plan (needsBuffer select plan)) := by
  have hbinds := h
  unfold compileSelect at hbinds
  rw [hfrom] at hbinds
  simp only [hcount] at hbinds
  obtain ⟨⟨tables, join, n⟩, hcollect, hbinds⟩ := Res.bind_eq_ok.mp hbinds
  obtain ⟨on, hcond, hbinds⟩ := Res.bind_eq_ok.mp hbinds
  obtain ⟨plan, hplan, hbinds⟩ := Res.bind_eq_ok.mp hbinds
  have htop := here_openTables tables
  have hplaced : ∀ c, ((openTables tables).emit { opcode := .rewind, p1 := c }).here =
      tables.length + 1 + 1 := fun c => by
    rw [Program.emit, Program.here_emitAll, htop, List.length_singleton]
  have hwhere : ∀ g ∈ whereGuards select schema tables, ∃ e, g = compilePred e schema tables 1 := fun g hg => by
    obtain ⟨e, -, rfl⟩ := List.mem_map.mp hg
    exact ⟨e, rfl⟩
  obtain ⟨new, hnew, -, hcursors, -⟩ := collectFrom_cursors src hcollect
  rw [List.nil_append] at hnew
  subst hnew
  have hfinish : ∀ body, finishSelect (((openTables tables).emit { opcode := .rewind, p1 := 0 }).emitAll
      (body ++ [{ opcode := .last, p1 := 0, p2 := (tables.length + 1 + 1 : Nat) }])) (tables.length + 1)
      select plan (needsBuffer select plan) = (openTables tables).emitAll
        (loopCode (tables.length + 1) 0 body ++
          tailCode (tables.length + 1 + (loopCode (tables.length + 1) 0 body).length) select plan
            (needsBuffer select plan)) := fun body => by
    rw [finish_scans htop, loopCode_length, List.length_append]
    rfl
  cases tables with
  | nil => cases on <;> cases hbinds
  | cons outer rest =>
    have houter : outer.cursor = 0 := by
      have := congrArg List.head? hcursors
      simpa [List.range_succ_eq_map, eq_comm] using this
    cases rest with
    | nil =>
      rw [compileSelect_scan hfrom hcount hcollect hplan, htop,
        compileScan_loop _ _ _ _ _ _ _ (hplaced _), houter] at h
      refine ⟨_, _, _, plan, whereGuards select schema [outer], hcollect, hplan, hwhere, ?_⟩
      exact (Except.ok.inj h).symm.trans (hfinish _)
    | cons inner rest =>
      have hinner : inner.cursor = 1 := by
        have := congrArg (fun l => l[1]?) hcursors
        simpa [List.range_succ_eq_map] using this
      have hjoined : decide (1 < (outer :: inner :: rest).length) = true := by simp
      cases on with
      | none =>
        unfold joinCondition at hcond
        rw [if_neg (by simp)] at hcond
        split at hcond
        · cases hcond
        · split at hcond
          · cases hcond
          · split at hcond <;> cases hcond
      | some on =>
        rw [compileSelect_join rfl hfrom hcount hcollect hcond hplan, htop,
          compileJoin_loop _ _ _ _ _ _ _ _ _ (hplaced _), houter, hinner] at h
        refine ⟨_, _, _, plan, compilePred on schema (outer :: inner :: rest) 1 ::
          whereGuards select schema (outer :: inner :: rest), hcollect, hplan, ?_, ?_⟩
        · exact List.forall_mem_cons.mpr ⟨⟨on, rfl⟩, hwhere⟩
        · refine (Except.ok.inj h).symm.trans ((hfinish _).trans ?_)
          rw [hjoined]
          rfl

/-- The first `Rewind` goes behind the scans when there is no row. -/
theorem compileSelect_tail {select : Select} {src : TableRef Select} {prog : Program}
    (hfrom : select.«from» = some src) (hcount : simpleCountStar select src = none)
    (h : compileSelect select schema = .ok prog) :
    ∃ tables join n plan cursor scan, collectFrom schema src [] none 0 = .ok (tables, join, n) ∧
      buildSelectPlan select schema tables = .ok plan ∧
      prog.insns = (openTables tables).insns ++
        { opcode := .rewind, p1 := cursor, p2 := (tables.length + 1 + scan.length + 1 : Nat) } ::
          (scan ++ tailCode (tables.length + 1 + scan.length + 1) select plan
            (needsBuffer select plan)) := by
  obtain ⟨tables, join, n, plan, guards, hcollect, hplan, -, rfl⟩ := compileSelect_layout hfrom hcount h
  obtain ⟨body, hbody⟩ : ∃ body, scansCode (tables.length + 1) (1 < tables.length) guards
      (compileRowLoad plan tables schema) (emitInsn plan (needsBuffer select plan)) =
      loopCode (tables.length + 1) 0 body := by
    unfold scansCode
    split <;> exact ⟨_, rfl⟩
  refine ⟨tables, join, n, plan, 0, body ++ [{ opcode := .last, p1 := 0, p2 := (tables.length + 1 + 1 : Nat) }],
    hcollect, hplan, ?_⟩
  rw [hbody, loopCode_length, List.length_append]
  rfl

end

end Sqllite
