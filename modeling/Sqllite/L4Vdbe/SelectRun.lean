import Sqllite.L2Storage.Cursor
import Sqllite.L4Vdbe.ExprCode

/-!
# Running a `SELECT` over one table

`SELECT * FROM t WHERE w` compiles to one scan: the condition, a jump over the
row, the row, the next row. The rows it returns are those the scan of the tree
yields and the condition's code passes.

* `compileSelect_star`: the program.
* `select_answers`: what it returns.
-/
namespace Sqllite
open Lib Lib.Run Lib.Machine

/-! ## The program -/

/-- `SELECT * FROM name alias WHERE w`. -/
def selectStar (name : String) («alias» : Option String) (w : Expr) : Select :=
  let star : ResultColumn := { expr := .star, «alias» := none }
  { distinct := false, columns := [star], «from» := some (.table name «alias»)
    whereClause := some w, groupBy := [], having := none, orderBy := [], limit := none
    offset := none }

/-- The table of that statement. -/
def onlyTable (name : String) («alias» : Option String) : TableBinding :=
  { name := name, «alias» := «alias».getD name, cursor := 0 }

/-- The code for the columns from `i` on, `k` of them. -/
def loadCode (i k : Nat) : List Insn :=
  (List.range' i k).map fun c => { opcode := .column, p1 := (c : Nat), p2 := 0, p3 := (c : Nat) }

/-- What follows the condition: the jump over the row, the row, the next row. -/
def rowCode (n next : Nat) : List Insn :=
  { opcode := .ifNot, p1 := 1, p2 := next } :: (loadCode 0 n ++
    [{ opcode := .resultRow, p1 := n }, { opcode := .last, p2 := 3 }, { opcode := .halt }])

/-- The code of a scan with `n` columns; `pred` is the code of the condition. -/
def scanCode (name : String) (n : Nat) (pred : List Insn) : List Insn :=
  [{ opcode := .init, p2 := 1 }, { opcode := .openRead, p4 := .string name },
    { opcode := .rewind, p2 := (pred.length + n + 6 : Nat) }] ++
    (pred ++ rowCode n (pred.length + n + 5))

theorem Program.patchP2_eq {prog : Program} {pre post : List Insn} {addr : Nat} (insn : Insn)
    (h : prog.insns = pre ++ insn :: post) (hlen : pre.length = addr) (target : Int) :
    prog.patchP2 addr target = { prog with insns := pre ++ { insn with p2 := target } :: post } :=
  congrArg (fun insns => { prog with insns := insns }) (Program.patchP2_insns h hlen target)

section
variable [Unicode] {schema : Schema} {t : Schema.Table} {name : String}

theorem loadSources_columns (tb : TableBinding) (htb : tb.cursor = 0) : ∀ k i : Nat,
    loadSources [tb] schema i ((List.range' i k).map fun c =>
      .column { tableIdx := 0, colIdx := c }) = loadCode i k
  | 0, _ => rfl
  | k + 1, i => by
    rw [loadCode, List.range'_succ, List.map_cons, List.map_cons, loadSources]
    have ih := loadSources_columns tb htb k (i + 1)
    rw [loadCode] at ih
    rw [show (i : Int) + 1 = ((i + 1 : Nat) : Int) from rfl, ih, loadSource]
    simp only [cursorOf, List.getElem?_cons_zero, Option.map_some, Option.getD_some, htb]
    rfl

theorem buildSelectPlan_star («alias» : Option String) (w : Expr)
    (ht : schema.table name = some t) :
    buildSelectPlan (selectStar name «alias» w) schema [onlyTable name «alias»] = .ok
      { rowSources := (List.range t.columnCount).map fun c => .column { tableIdx := 0, colIdx := c }
        rowWidth := t.columnCount, outputWidth := t.columnCount, hasAggregates := false
        groupSpec := none, sortKeys := [] } := by
  have hsrc : plainSources schema [onlyTable name «alias»] { expr := .star, «alias» := none } =
      .ok ((List.range t.columnCount).map fun c => .column { tableIdx := 0, colIdx := c }) := by
    simp only [plainSources, onlyTable, ht]
  simp [buildSelectPlan, selectStar, planSources, isFunction, hsrc]

/-- The scan of one table: the jump of the condition goes to the next row. -/
theorem compileScan_eq (prog : Program) {select : Select} {w : Expr} {tb : TableBinding}
    {plan : SelectPlan} (hw : select.whereClause = some w) (outerRewind : Nat) :
    compileScan prog select schema [tb] plan false tb outerRewind =
      prog.emitAll (compilePred w schema [tb] 1 ++
        { opcode := .ifNot, p1 := 1
          p2 := (prog.insns.length + (compilePred w schema [tb] 1).length +
            (compileRowLoad plan [tb] schema).length + 2 : Nat) } ::
        (compileRowLoad plan [tb] schema ++ [{ opcode := .resultRow, p1 := plan.outputWidth },
          { opcode := .last, p1 := tb.cursor, p2 := (outerRewind + 1 : Nat) }])) := by
  have hwhere : compileOptionalWhere prog select schema [tb] 1 =
      ((prog.emitAll (compilePred w schema [tb] 1)).emit { opcode := .ifNot, p1 := 1 },
        some (prog.emitAll (compilePred w schema [tb] 1)).here) := by
    rw [compileOptionalWhere, hw]
  have hpatch : ∀ target, Program.patchP2 ((((prog.emitAll (compilePred w schema [tb] 1)).emit
      { opcode := .ifNot, p1 := 1 }).emitAll (compileRowLoad plan [tb] schema)).emit
      { opcode := .resultRow, p1 := plan.outputWidth })
      (prog.emitAll (compilePred w schema [tb] 1)).here target =
      { prog with insns := (prog.insns ++ compilePred w schema [tb] 1) ++
          { opcode := .ifNot, p1 := 1, p2 := target } ::
          (compileRowLoad plan [tb] schema ++ [{ opcode := .resultRow, p1 := plan.outputWidth }]) } :=
    fun target => Program.patchP2_eq { opcode := .ifNot, p1 := 1 } (by simp) rfl target
  unfold compileScan compileBody
  simp only [hwhere, emitScanResult, Bool.false_eq_true, if_false, patchOpt, hpatch]
  simp only [Program.emit, Program.emitAll, Program.here, List.length_append, List.length_cons,
    List.length_nil, List.append_assoc, List.cons_append, List.nil_append]
  congr 5
  omega

theorem compileSelect_star («alias» : Option String) (w : Expr)
    (ht : schema.table name = some t) :
    compileSelect (selectStar name «alias» w) schema = .ok
      { insns := scanCode name t.columnCount
          (compilePred w schema [onlyTable name «alias»] 1)
        nReg := 32, readOnly := true } := by
  have hfrom : collectFrom schema (.table name «alias») [] none 0 =
      .ok ([onlyTable name «alias»], none, 1) := by
    simp only [collectFrom, ht]
    rfl
  have hload : compileRowLoad
      { rowSources := (List.range t.columnCount).map fun c => .column { tableIdx := 0, colIdx := c }
        rowWidth := t.columnCount, outputWidth := t.columnCount, hasAggregates := false
        groupSpec := none, sortKeys := [] } [onlyTable name «alias»] schema =
      loadCode 0 t.columnCount := by
    rw [compileRowLoad, List.range_eq_range']
    exact loadSources_columns _ rfl t.columnCount 0
  have hcount : simpleCountStar (selectStar name «alias» w) (.table name «alias») = none := rfl
  have hsrc : (selectStar name «alias» w).«from» = some (.table name «alias») := rfl
  have hplain : (!(selectStar name «alias» w).groupBy.isEmpty ||
    !(selectStar name «alias» w).orderBy.isEmpty || false) = false := rfl
  have hresults : ∀ prog plan, plan.hasAggregates = false →
      compileResults prog (selectStar name «alias» w) plan false = prog := by
    intro prog plan hplan
    rw [compileResults, hplan]
    rfl
  unfold compileSelect
  rw [hsrc]
  simp only [hcount, hfrom, Res.ok_bind, joinCondition, List.length_singleton, le_refl, if_true,
    buildSelectPlan_star «alias» w ht, hplain,
    compileScan_eq _ (show (selectStar name «alias» w).whereClause = some w from rfl), hload,
    hresults]
  have hlen : (loadCode 0 t.columnCount).length = t.columnCount := by
    rw [loadCode, List.length_map, List.length_range']
  simp only [pure_bind, Program.emit, Program.emitAll, Program.here, Program.patchP2, Program.new,
    onlyTable, List.map_cons, List.map_nil, List.nil_append, List.cons_append, List.append_assoc,
    List.length_cons, List.length_append, List.length_nil, List.modify_succ_cons,
    List.modify_zero_cons, hlen, scanCode, rowCode]
  generalize compilePred w schema _ 1 = pred
  have hend : pred.length + (t.columnCount + (0 + 1 + 1) + 1) + 1 + 1 + 1 =
    pred.length + t.columnCount + 6 := by omega
  have hnext : 0 + 1 + 1 + 1 + pred.length + t.columnCount + 2 =
    pred.length + t.columnCount + 5 := by omega
  rw [hend, hnext]
  rfl

end

/-! ## Rows returned -/

/-- The values of the row a step returned. -/
def Vdbe.currentRow (v : Vdbe) : List Value := (List.range v.columnCount).filterMap v.columnValue

namespace Vdbe

/-- The rows that the steps of a statement return, `n` steps at most. -/
def rows [Unicode] (fuel : Nat) : Nat → VdbeM (List (List Value))
  | 0 => lift panicked
  | n + 1 => do
    match ← step fuel with
    | .row => do
      let s ← get
      let rest ← rows fuel n
      pure (s.currentRow :: rest)
    | _ => pure []

/-- The same, where the last step has to answer `Done`. -/
def fetch [Unicode] (fuel : Nat) : Nat → VdbeM (List (List Value))
  | 0 => lift panicked
  | n + 1 => do
    match ← step fuel with
    | .row => do
      let s ← get
      let rest ← fetch fuel n
      pure (s.currentRow :: rest)
    | .done => pure []
    | code => lift (fail code "")

/-- With enough fuel the steps return these rows, and then `Done`. -/
def Finishes [Unicode] (s : Machine) (out : List (List Value)) : Prop :=
  ∃ N, ∀ fuel ≥ N, ∃ t, fetch fuel fuel s = .ok out t

/-- With enough fuel a statement returns these rows and is done. -/
def Answers [Unicode] (s : Machine) (out : List (List Value)) : Prop :=
  ∃ N, ∀ fuel ≥ N, ∃ t, rows fuel fuel s = .ok out t

/-- The next step goes on with the program. -/
def Idle (s : Machine) : Prop := s.halted = false ∧ s.pragmaPending = []

/-- The rows still to come. -/
inductive Returns [Unicode] : Machine → List (List Value) → Prop
  | done {s t : Machine} : Idle s → Ends round s (.ok .done t) → Returns s []
  | row {s t : Machine} {out : List (List Value)} :
      Idle s → Ends round s (.ok .row t) → Returns t out → Returns s (t.currentRow :: out)

section
variable [Unicode] {s t : Machine} {out out' : List (List Value)}

theorem Answers.unique (h : Answers s out) (h' : Answers s out') : out = out' := by
  obtain ⟨N, hN⟩ := h
  obtain ⟨N', hN'⟩ := h'
  obtain ⟨t, ht⟩ := hN (max N N') (Nat.le_max_left _ _)
  obtain ⟨t', ht'⟩ := hN' (max N N') (Nat.le_max_right _ _)
  have := ht.symm.trans ht'
  cases this
  rfl

theorem step_idle (h : Idle s) (fuel : Nat) : step fuel s = loop (round fuel) fuel s := by
  unfold step
  rw [bind_ok (get_apply s), if_neg (by rw [h.1]; decide), if_neg (by rw [h.2]; simp)]

theorem Returns.of_reaches (hs : Idle s) (h : Reaches round s t) (ht : Returns t out) :
    Returns s out := by
  cases ht with
  | done _ hend => exact .done hs (h.ends hend)
  | row _ hend hrest => exact .row hs (h.ends hend) hrest

theorem Returns.fetch_eq (h : Returns s out) :
    ∃ N, ∀ fuel ≥ N, ∀ n ≥ N, ∃ t, fetch fuel n s = .ok out t := by
  induction h with
  | @done s t hs hend =>
    obtain ⟨k, hk⟩ := hend
    refine ⟨k + 1, fun fuel hf n hn => ⟨t, ?_⟩⟩
    obtain ⟨m, rfl⟩ := Nat.exists_eq_add_of_le' (Nat.le_trans (Nat.le_add_left 1 k) hn)
    rw [fetch, bind_ok ((step_idle hs fuel).trans (hk fuel fuel (by omega)))]
    rfl
  | @row s t out hs hend _ ih =>
    obtain ⟨k, hk⟩ := hend
    obtain ⟨N, hN⟩ := ih
    refine ⟨k + N + 1, fun fuel hf n hn => ?_⟩
    obtain ⟨m, rfl⟩ := Nat.exists_eq_add_of_le' (Nat.le_trans (Nat.le_add_left 1 (k + N)) hn)
    obtain ⟨u, hu⟩ := hN fuel (by omega) m (by omega)
    refine ⟨u, ?_⟩
    rw [fetch, bind_ok ((step_idle hs fuel).trans (hk fuel fuel (by omega)))]
    simp only
    rw [bind_ok (get_apply t), bind_ok hu]
    rfl

/-- Where the steps end with `Done` they end. -/
theorem rows_of_fetch (fuel : Nat) : ∀ (n : Nat) {s t : Machine} {out : List (List Value)},
    fetch fuel n s = .ok out t → rows fuel n s = .ok out t
  | 0, _, _, _, h => h
  | n + 1, s, t, out, h => by
    obtain ⟨code, u, hstep, h⟩ := bind_eq_ok.mp h
    refine (bind_ok hstep _).trans ?_
    cases code with
    | row =>
      obtain ⟨v, u', hget, h⟩ := bind_eq_ok.mp h
      obtain ⟨rest, w, hrest, h⟩ := bind_eq_ok.mp h
      exact (bind_ok hget _).trans ((bind_ok (rows_of_fetch fuel n hrest) _).trans h)
    | done => exact h
    | _ => cases h

theorem Returns.finishes (h : Returns s out) : Finishes s out := by
  obtain ⟨N, hN⟩ := h.fetch_eq
  exact ⟨N, fun fuel hf => hN fuel hf fuel hf⟩

theorem Finishes.unique (h : Finishes s out) (h' : Finishes s out') : out = out' := by
  obtain ⟨N, hN⟩ := h
  obtain ⟨N', hN'⟩ := h'
  obtain ⟨t, ht⟩ := hN (max N N') (Nat.le_max_left _ _)
  obtain ⟨t', ht'⟩ := hN' (max N N') (Nat.le_max_right _ _)
  have := ht.symm.trans ht'
  cases this
  rfl

theorem Returns.answers (h : Returns s out) : Answers s out := by
  obtain ⟨N, hN⟩ := h.finishes
  refine ⟨N, fun fuel hf => ?_⟩
  obtain ⟨t, ht⟩ := hN fuel hf
  exact ⟨t, rows_of_fetch fuel fuel ht⟩

end

/-! ## One row -/

/-- The first `i` columns of the row are in their registers. -/
def Loaded (regs : List Value) (i : Nat) (row : List Value) : Prop :=
  ∀ j < i, regs[j]? = some (cell row (some j))

/-- A row as the statement returns it: a value for each column. -/
def wide (n : Nat) (row : List Value) : List Value := (List.range n).map fun c => cell row (some c)

section
variable {s : Machine} {row : List Value}

theorem loadCode_run [Unicode] : ∀ (k i : Nat) {s : Machine}, Placed s.program.insns s.pc (loadCode i k) →
    OnRow s 0 row → Loaded s.regs i row →
    ∃ regs, Reaches round s (s.moveTo (s.pc + k) regs) ∧ Loaded regs (i + k) row
  | 0, _, s, _, _, hl => ⟨s.regs, Reaches.refl, hl⟩
  | k + 1, i, s, hp, hrow, hl => by
    rw [loadCode, List.range'_succ, List.map_cons] at hp
    have hfirst : Reaches round s (s.moveTo (s.pc + 1) (putReg s.regs i (cell row (some i)))) :=
      reaches_answer hp.head i _ fun fuel =>
        execute_column (s := s.moveTo (s.pc + 1) s.regs) hrow i i fuel
    obtain ⟨regs, hrun, hl'⟩ := loadCode_run k (i + 1)
      (s := s.moveTo (s.pc + 1) (putReg s.regs i (cell row (some i)))) hp.tail hrow fun j hj => by
        by_cases hji : j = i
        · subst hji
          exact putReg_self _ _ _
        · exact putReg_of_ne (hl j (by omega)) _ hji
    refine ⟨regs, ?_, ?_⟩
    · have hpc : s.pc + (k + 1) = s.pc + 1 + k := by omega
      rw [hpc]
      exact hfirst.trans hrun
    · have hi : i + (k + 1) = i + 1 + k := by omega
      rw [hi]
      exact hl'

/-- The statement behind a `ResultRow`. -/
def resultOf (s : Machine) (n : Nat) : Machine := { s with resultColumns := List.range n }

theorem currentRow_resultOf {n : Nat} (h : Loaded s.regs n row) :
    (resultOf s n).currentRow = wide n row := by
  have hcol : ∀ c ∈ List.range n, (resultOf s n).columnValue c = some (cell row (some c)) := by
    intro c hc
    have hlt := List.mem_range.mp hc
    show (List.range n)[c]?.bind (s.regs[·]?) = _
    rw [List.getElem?_range hlt, Option.bind_some, h c hlt]
  have hcount : (resultOf s n).columnCount = n := List.length_range
  unfold currentRow wide
  rw [hcount, List.filterMap_congr hcol, List.filterMap_eq_map']

/-! ## The scan -/

/-- The statement scans with its cursor 0, which is `c`. -/
structure Scanning (s : Machine) (code : List Insn) (c : BtreeCursor) : Prop where
  idle : Idle s
  code : s.program.insns = code
  cursor : ∃ cs, s.cursors.lookup 0 = some cs ∧ cs.cursor.attach s.pager = c

variable {code : List Insn} {c c' : BtreeCursor}

theorem Scanning.moveTo (h : Scanning s code c) (pc : Nat) (regs : List Value) :
    Scanning (s.moveTo pc regs) code c := ⟨h.idle, h.code, h.cursor⟩

theorem Scanning.onRow (h : Scanning s code c) (hrow : c.values = .ok row) : OnRow s 0 row := by
  obtain ⟨cs, hcs, rfl⟩ := h.cursor
  exact ⟨cs, hcs, hrow⟩

variable [Unicode]

/-- A cursor opcode: `m` moves the cursor, and the program goes on at `p2` where `cond` says so. -/
theorem Scanning.move (h : Scanning s code c) {insn : Insn} (hp : code[s.pc]? = some insn)
    (m : CursorM Bool) (cond : Bool → Bool)
    (hex : ∀ fuel s, execute fuel insn s = withCursor 0 (fun cs => do
      let found ← onCursor 0 cs m
      jumpIf (cond found) insn.p2) s) {found : Bool} (hm : m c = .ok found c') :
    ∃ t, Reaches round s t ∧ Scanning t code c' ∧
      t.pc = if cond found then address insn.p2 else s.pc + 1 := by
  obtain ⟨cs, hcs, rfl⟩ := h.cursor
  let moved : Machine := { s.moveTo (s.pc + 1) s.regs with
    pager := c'.btree.pager
    cursors := s.cursors.insert 0 { cs with cursor := c'.detach } }
  have hwith : ∀ f, withCursor 0 f (s.moveTo (s.pc + 1) s.regs) = f cs (s.moveTo (s.pc + 1) s.regs) := by
    intro f
    unfold withCursor
    rw [bind_ok (get_apply _), Machine.moveTo_cursors, hcs]
  have hcursor : onCursor 0 cs m (s.moveTo (s.pc + 1) s.regs) = .ok found moved := zoom_ok hm
  have hstand : ∀ pc, Scanning (moved.moveTo pc s.regs) code c' := fun pc =>
    ⟨h.idle, h.code, _, AList.lookup_insert _, rfl⟩
  have hround : ∀ t, jumpIf (cond found) insn.p2 moved = .ok .continue t → Reaches round s t := by
    intro t ht
    refine Reaches.step fun fuel => round_continue (h.code ▸ hp) ?_
    rw [hex, hwith, bind_ok hcursor, ht]
  cases hcond : cond found with
  | false =>
    rw [hcond] at hround
    exact ⟨moved, hround _ rfl, hstand (s.pc + 1), rfl⟩
  | true =>
    rw [hcond] at hround
    exact ⟨moved.moveTo (address insn.p2) s.regs, hround _ rfl, hstand _, rfl⟩

theorem Scanning.halt (h : Scanning s code c) (hp : code[s.pc]? = some { opcode := .halt }) :
    Returns s [] :=
  .done h.idle (Ends.answer fun fuel => by
    unfold round
    rw [bind_ok (get_apply s), h.code, hp]
    rfl)

theorem reaches_ifNot {r : Nat} {next : Int}
    (hp : s.program.insns[s.pc]? = some { opcode := .ifNot, p1 := r, p2 := next }) :
    Reaches round s (s.moveTo (if (regAt s.regs r).nonzero then s.pc + 1 else address next) s.regs) := by
  refine Reaches.step fun fuel => round_continue hp ?_
  unfold execute
  rw [bind_ok (get_apply _)]
  show jumpIf ((getReg _ (r : Int)).isNull || !(getReg _ (r : Int)).nonzero) next _ = _
  rw [getReg_nat, Machine.moveTo_regs]
  generalize regAt s.regs r = v
  have hnull : (v.isNull || !v.nonzero) = !v.nonzero := by cases v <;> rfl
  rw [hnull]
  cases v.nonzero <;> rfl

theorem ends_resultRow {n : Nat}
    (hp : s.program.insns[s.pc]? = some { opcode := .resultRow, p1 := n }) :
    Ends round s (.ok .row (resultOf (s.moveTo (s.pc + 1) s.regs) n)) :=
  Ends.answer fun _ => round_row hp rfl

/-- The columns are loaded, and the row is returned. -/
theorem ends_row {n : Nat} {rest : List Insn} (hrow : OnRow s 0 row)
    (hp : Placed s.program.insns s.pc (loadCode 0 n ++ { opcode := .resultRow, p1 := n } :: rest)) :
    ∃ regs, Ends round s (.ok .row (resultOf (s.moveTo (s.pc + n + 1) regs) n)) ∧
      (resultOf (s.moveTo (s.pc + n + 1) regs) n).currentRow = wide n row := by
  obtain ⟨regs, hrun, hloaded⟩ := loadCode_run n 0 hp.left hrow
    fun j hj => absurd hj (Nat.not_lt_zero j)
  have hresult := hp.right.head
  rw [loadCode, List.length_map, List.length_range'] at hresult
  rw [Nat.zero_add] at hloaded
  exact ⟨regs, hrun.ends (ends_resultRow (s := s.moveTo (s.pc + n) regs) hresult),
    currentRow_resultOf (s := s.moveTo (s.pc + n + 1) regs) hloaded⟩

end

/-! ## The whole statement -/

/-- The values of a row, none where its record is broken. -/
def rowValues (r : Row) : List Value := (decodeRecord r.2).toOption.getD []

/-- What the statement returns of these rows. -/
def passed (n : Nat) (verdict : List Value → Value) (rows : List Row) : List (List Value) :=
  ((rows.map rowValues).filter fun row => (verdict row).nonzero).map (wide n)

section
variable {s : Machine} {row : List Value} {c c' : BtreeCursor} {name : String} {n : Nat}
  {pred : List Insn} {verdict : List Value → Value} {out : List (List Value)}

theorem passed_cons (r : Row) (rs : List Row) : passed n verdict (r :: rs) =
    if (verdict (rowValues r)).nonzero then wide n (rowValues r) :: passed n verdict rs
    else passed n verdict rs := by
  unfold passed
  rw [List.map_cons, List.filter_cons]
  split
  · rw [List.map_cons]
  · rfl

theorem values_of_record {r : Row} (hc : c.currentRecord = some r.2)
    (hr : (decodeRecord r.2).toOption.isSome) : c.values = .ok (rowValues r) := by
  unfold BtreeCursor.values
  rw [hc]
  exact Res.eq_ok_getD hr

theorem scanCode_next : Placed (scanCode name n pred) (pred.length + n + 5)
    [{ opcode := .last, p2 := 3 }, { opcode := .halt }] := by
  have hcode : Placed (scanCode name n pred) 3 (pred ++ rowCode n (pred.length + n + 5)) :=
    Placed.whole.right
  have hlast := hcode.right.tail.right.tail
  rw [loadCode, List.length_map, List.length_range'] at hlast
  rw [show pred.length + n + 5 = 3 + pred.length + 1 + n + 1 by omega]
  exact hlast

theorem mem_scanned : ∀ {leaves : List Leaf} {r : Row}, r ∈ scanned leaves →
    ∃ l ∈ leaves, r ∈ l.rows
  | [], _, h => by cases h
  | l :: leaves, r, h => by
    rw [scanned] at h
    split at h
    · cases h
    · rcases List.mem_append.mp h with h | h
      · exact ⟨l, List.mem_cons_self, h⟩
      · obtain ⟨l', hl', hr⟩ := mem_scanned h
        exact ⟨l', List.mem_cons_of_mem _ hl', hr⟩

/-- A prepared statement before its first step. -/
def fresh (prog : Program) (db : Db) : Machine := { toVdbe := Vdbe.new prog, toDb := db }

theorem fresh_idle (prog : Program) (db : Db) : Idle (fresh prog db) := ⟨rfl, rfl⟩

variable [Unicode]

/-- The code of a condition computes its verdict on the row of the cursor 0. -/
def Judges (pred : List Insn) (verdict : List Value → Value) : Prop :=
  ∀ (s : Machine) (row : List Value), OnRow s 0 row → Placed s.program.insns s.pc pred →
    Computes s pred 1 (verdict row)

/-- The row under the cursor is returned if the condition passes it. -/
theorem row_returns (hpred : Judges pred verdict) (h : Scanning s (scanCode name n pred) c)
    (hpc : s.pc = 3) (hrow : c.values = .ok row)
    (hnext : ∀ t, Scanning t (scanCode name n pred) c → t.pc = pred.length + n + 5 →
      Returns t out) :
    Returns s (if (verdict row).nonzero then wide n row :: out else out) := by
  have hcode : Placed s.program.insns s.pc (pred ++ rowCode n (pred.length + n + 5)) := by
    rw [h.code, hpc]
    exact Placed.whole.right
  obtain ⟨regs, hrun, hv, -⟩ := hpred s row (h.onRow hrow) hcode.left
  have hifNot := reaches_ifNot (s := s.moveTo (s.pc + pred.length) regs) (r := 1) hcode.right.head
  rw [Machine.moveTo_regs, hv] at hifNot
  have hreach := hrun.trans hifNot
  cases hpass : (verdict row).nonzero with
  | false =>
    rw [hpass] at hreach
    exact Returns.of_reaches h.idle hreach (hnext _ (h.moveTo _ regs) rfl)
  | true =>
    rw [hpass] at hreach
    obtain ⟨regs', hend, hout⟩ := ends_row (s := s.moveTo (s.pc + pred.length + 1) regs)
      (h.onRow hrow) hcode.right.tail
    rw [if_pos rfl, ← hout]
    refine .row h.idle (hreach.ends hend) (hnext _ ⟨h.idle, h.code, h.cursor⟩ ?_)
    show s.pc + pred.length + 1 + n + 1 = _
    omega

/-- From the instruction that moves to the next row on: the rows ahead. -/
theorem rest_returns (hpred : Judges pred verdict) : ∀ (rs : List Row) {s : Machine}
    {c c' : BtreeCursor}, (∀ r ∈ rs, (decodeRecord r.2).toOption.isSome) →
    Scanning s (scanCode name n pred) c → s.pc = pred.length + n + 5 →
    BtreeCursor.Yields BtreeCursor.next c rs c' → Returns s (passed n verdict rs)
  | [], s, c, c', _, h, hpc, hm => by
    obtain ⟨t, hrun, ht, htpc⟩ := h.move (hpc ▸ scanCode_next.head) BtreeCursor.next id
      (fun _ _ => rfl) hm
    refine Returns.of_reaches h.idle hrun (ht.halt ?_)
    rw [htpc, hpc]
    exact scanCode_next.tail.head
  | r :: rs, s, c, c', hdec, h, hpc, ⟨c1, hm, _, hrec, hy⟩ => by
    obtain ⟨t, hrun, ht, htpc⟩ := h.move (hpc ▸ scanCode_next.head) BtreeCursor.next id
      (fun _ _ => rfl) hm
    refine Returns.of_reaches h.idle hrun ?_
    rw [passed_cons]
    refine row_returns hpred ht htpc (values_of_record hrec (hdec r List.mem_cons_self))
      fun u hu hupc => ?_
    exact rest_returns hpred rs (fun x hx => hdec x (List.mem_cons_of_mem _ hx)) hu hupc hy

/-- From the `Rewind` on: all the rows of the scan. -/
theorem scan_returns (hpred : Judges pred verdict) (rs : List Row)
    (hdec : ∀ r ∈ rs, (decodeRecord r.2).toOption.isSome) (h : Scanning s (scanCode name n pred) c)
    (hpc : s.pc = 2) (hy : BtreeCursor.Yields BtreeCursor.first c rs c') :
    Returns s (passed n verdict rs) := by
  have hrewind : (scanCode name n pred)[s.pc]? =
      some { opcode := .rewind, p2 := (pred.length + n + 6 : Nat) } := by
    rw [hpc]
    rfl
  cases rs with
  | nil =>
    obtain ⟨t, hrun, ht, htpc⟩ := h.move hrewind BtreeCursor.first (!·) (fun _ _ => rfl) hy
    refine Returns.of_reaches h.idle hrun (ht.halt ?_)
    rw [htpc]
    exact scanCode_next.tail.head
  | cons r rs =>
    obtain ⟨c1, hm, -, hrec, hy⟩ := hy
    obtain ⟨t, hrun, ht, htpc⟩ := h.move hrewind BtreeCursor.first (!·) (fun _ _ => rfl) hm
    refine Returns.of_reaches h.idle hrun ?_
    rw [passed_cons]
    refine row_returns hpred ht (htpc.trans ?_)
      (values_of_record hrec (hdec r List.mem_cons_self)) fun u hu hupc => ?_
    · rw [hpc]
      rfl
    · exact rest_returns hpred rs (fun x hx => hdec x (List.mem_cons_of_mem _ hx)) hu hupc hy

/-- The table is opened, and its scan begins. -/
theorem open_scan {db : Db} {t : Schema.Table} (ht : db.schema.table name = some t)
    (prog : Program) (hprog : prog.insns = scanCode name n pred) :
    ∃ s, Reaches round (fresh prog db) s ∧ s.pc = 2 ∧
      Scanning s (scanCode name n pred) ((tableCursor t.rootPage).attach db.pager) := by
  let cs : CursorState :=
    { rootPage := t.rootPage, cursor := tableCursor t.rootPage, table := name }
  let s1 : Machine := (fresh prog db).moveTo 1 (fresh prog db).regs
  let s2 : Machine := { s1.moveTo 2 s1.regs with cursors := s1.cursors.insert 0 cs }
  have hinit : Reaches round (fresh prog db) s1 := by
    have hp : prog.insns[0]? = some { opcode := .init, p2 := 1 } := by
      rw [hprog]
      rfl
    exact Reaches.step fun fuel => round_continue hp rfl
  have hopen : Reaches round s1 s2 := by
    have hp : prog.insns[1]? = some { opcode := .openRead, p4 := .string name } := by
      rw [hprog]
      rfl
    refine Reaches.step fun fuel => round_continue (s := s1) hp ?_
    unfold execute
    rw [bind_ok (get_apply _)]
    refine (bind_ok (get_apply _) _).trans ?_
    have ht' : (s1.moveTo (s1.pc + 1) s1.regs).schema.table name = some t := ht
    simp only [ht']
    rfl
  exact ⟨s2, hinit.trans hopen, rfl, ⟨rfl, rfl⟩, hprog, cs, AList.lookup_insert _, rfl⟩

/-- `SELECT * FROM t WHERE w` returns, of the rows that the scan of the tree
yields, those that the condition's code passes. -/
theorem select_answers {db : Db} {t : Schema.Table} {«alias» : Option String} {w : Expr}
    {k : Nat} {leaves : List Leaf} (hs : db.pager.Ready) (ht : db.schema.table name = some t)
    (htree : TreeAt db.pager k t.rootPage leaves)
    (hdec : ∀ l ∈ leaves, ∀ r ∈ l.rows, (decodeRecord r.2).toOption.isSome)
    (hw : w.Clause (t.names (onlyTable name «alias»))) :
    ∃ prog, compileSelect (selectStar name «alias» w) db.schema = .ok prog ∧
      Answers (fresh prog db) (passed t.columnCount
        (w.verdict (t.names (onlyTable name «alias»))) (scanned leaves)) := by
  refine ⟨_, compileSelect_star «alias» w ht, Returns.answers ?_⟩
  obtain ⟨s, hrun, hpc, hscan⟩ := open_scan ht
    { insns := scanCode name t.columnCount (compilePred w db.schema [onlyTable name «alias»] 1)
      nReg := 32, readOnly := true } rfl
  obtain ⟨c', hy, -⟩ := BtreeCursor.scan_spec hs (c := (tableCursor t.rootPage).attach db.pager)
    (Pager.Reads.refl _) rfl htree
  have hjudge : Judges (compilePred w db.schema [onlyTable name «alias»] 1)
      (w.verdict (t.names (onlyTable name «alias»))) := by
    intro s row hrow hp
    exact compilePred_computes ht hw hrow 1 hp
  refine Returns.of_reaches (fresh_idle _ _) hrun (scan_returns hjudge _ (fun r hr => ?_) hscan hpc hy)
  obtain ⟨l, hl, hr⟩ := mem_scanned hr
  exact hdec l hl r hr

end

end Vdbe

end Sqllite
