import Sqllite.Lib.Machine
import Sqllite.L3Sql.Catalog
import Sqllite.L3Sql.Program
import Sqllite.L4Vdbe.Pragma

/-!
# The virtual machine (`vdbe/exec.rs`)

A statement in execution is a `Vdbe` on the pager and the catalog it shares with
its connection. The loop of `step`, and the scans that single opcodes make, have
fuel; the same amount bounds each of them.

A hash map is listed in the order an iteration over it visits, so the groups of
`GroupBy` come out in the order of their table.
-/
namespace Sqllite
open Lib Lib.Run Lib.Span Lib.Machine

/-- `self.cursors.get(i)`: the B-tree's root page, its cursor and the table's name.
mirrors sqllite-core/src/vdbe/exec.rs:33-37 -/
structure CursorState where
  rootPage : Nat
  cursor : SavedCursor
  table : String

/-- mirrors sqllite-core/src/vdbe/exec.rs:13-31, without what it shares -/
structure Vdbe where
  program : Program
  pc : Nat
  regs : List Value
  cursors : Lib.Table Int CursorState
  halted : Bool
  haltCode : ResultCode
  haltMessage : String
  resultColumns : List Nat
  changes : Int
  lastRowid : Int
  pragmaPending : List PragmaRow
  pragmaRowIdx : Nat
  rowBuffer : List (List Value)
  bufferIdx : Nat

/-- A statement on what it shares with its connection. -/
structure Machine extends Vdbe, Db

abbrev VdbeM (α : Type) := Prog SqlliteError Machine α

/-- mirrors sqllite-core/src/vdbe/exec.rs:692-697 -/
inductive StepResult where
  | «continue»
  | row
  | done
  | halt (code : ResultCode) (message : String)
  deriving DecidableEq, Repr

/-- mirrors sqllite-core/src/vdbe/exec.rs:40-64 -/
def Vdbe.new (program : Program) : Vdbe where
  program := program
  pc := 0
  regs := List.replicate (max program.nReg 8) .null
  cursors := ∅
  halted := false
  haltCode := .ok
  haltMessage := ""
  resultColumns := []
  changes := 0
  lastRowid := 0
  pragmaPending := []
  pragmaRowIdx := 0
  rowBuffer := []
  bufferIdx := 0

/-- mirrors sqllite-core/src/vdbe/exec.rs:118-130 -/
def Vdbe.reset (v : Vdbe) : Vdbe :=
  { v with
    pc := 0
    halted := false
    haltCode := .ok
    regs := v.regs.map fun _ => .null
    cursors := ∅
    pragmaPending := []
    pragmaRowIdx := 0
    rowBuffer := []
    bufferIdx := 0 }

/-- mirrors sqllite-core/src/vdbe/exec.rs:106-108 -/
def Vdbe.columnCount (v : Vdbe) : Nat := v.resultColumns.length

/-- mirrors sqllite-core/src/vdbe/exec.rs:110-112 -/
def Vdbe.columnValue (v : Vdbe) (idx : Nat) : Option Value :=
  v.resultColumns[idx]?.bind (v.regs[·]?)

/-- mirrors sqllite-core/src/vdbe/exec.rs:699-709 -/
def ResultCode.tryFromI32 (v : Int) : Option ResultCode :=
  if v = 0 then some .ok
  else if v = 1 then some .error
  else if v = 19 then some .constraint
  else if v = 101 then some .done
  else some .error

/-! ## Registers -/

/-- `self.regs[idx] = val`, with as many NULLs in front as it takes. -/
def putReg (regs : List Value) (idx : Nat) (val : Value) : List Value :=
  if idx < regs.length then regs.set idx val
  else regs ++ List.replicate (idx - regs.length) .null ++ [val]

/-- What a register reads as. -/
def regAt (regs : List Value) (idx : Nat) : Value := regs[idx]?.getD .null

theorem regAt_putReg (regs : List Value) (i j : Nat) (val : Value) :
    regAt (putReg regs i val) j = if j = i then val else regAt regs j := by
  unfold regAt putReg
  by_cases hi : i < regs.length
  · rw [if_pos hi, List.getElem?_set]
    by_cases hj : i = j
    · rw [if_pos hj, if_pos hi, if_pos hj.symm]
      rfl
    · rw [if_neg hj, if_neg (Ne.symm hj)]
  · rw [if_neg hi, List.append_assoc, List.getElem?_append]
    by_cases hj : j < regs.length
    · rw [if_pos hj, if_neg (by omega)]
    · rw [if_neg hj, List.getElem?_append, List.length_replicate]
      rw [List.getElem?_eq_none (l := regs) (by omega)]
      by_cases hji : j = i
      · rw [if_pos hji, if_neg (by omega), show j - regs.length - (i - regs.length) = 0 by omega]
        rfl
      · rw [if_neg hji]
        by_cases hlt : j - regs.length < i - regs.length
        · rw [if_pos hlt, List.getElem?_replicate, if_pos hlt]
          rfl
        · rw [if_neg hlt, List.getElem?_eq_none (by simp; omega)]

@[simp] theorem regAt_putReg_self (regs : List Value) (i : Nat) (val : Value) :
    regAt (putReg regs i val) i = val := by
  rw [regAt_putReg, if_pos rfl]

theorem regAt_putReg_ne (regs : List Value) {i j : Nat} (val : Value) (h : j ≠ i) :
    regAt (putReg regs i val) j = regAt regs j := by
  rw [regAt_putReg, if_neg h]

/-! ## Groups -/

/-- mirrors sqllite-core/src/vdbe/exec.rs:587-592 -/
structure AggState where
  count : Int
  sum : Option Float
  min : Option Value
  max : Option Value

namespace AggState

/-- mirrors sqllite-core/src/vdbe/exec.rs:595-602 -/
def new : AggState := { count := 0, sum := none, min := none, max := none }

/-- The value kept of the old one and `v`, which replaces it where it compares as `o`. -/
def best (o : Ordering) (old : Option Value) (v : Value) : Option Value :=
  match old with
  | some cur => if v.compare cur = o then some v else some cur
  | none => some v

/-- mirrors sqllite-core/src/vdbe/exec.rs:604-642 -/
def step (st : AggState) (func : AggFunc) (val : Option Value) : AggState :=
  let st := { st with count := st.count + 1 }
  match func, val with
  | .count, _ => st
  | _, none => st
  | func, some v =>
    if v.isNull then st
    else match func with
      | .count => st
      | .sum => { st with sum := some (st.sum.getD 0 + v.asReal.getD 0) }
      | .min => { st with min := best .lt st.min v }
      | .max => { st with max := best .gt st.max v }

/-- mirrors sqllite-core/src/vdbe/exec.rs:644-651 -/
def finalize (st : AggState) : AggFunc → Value
  | .count => .integer (Int64.ofInt st.count)
  | .sum => .real (st.sum.getD 0).toBits
  | .min => st.min.getD .null
  | .max => st.max.getD .null

end AggState

/-- The groups that `apply_group_by` collects: for each text of a key, its values and states. -/
abbrev Groups := Lib.Table String (List Value × List AggState)

/-- The loop body of `apply_group_by`. -/
def addToGroup (spec : GroupBySpec) (groups : Groups) (row : List Value) : Groups :=
  let keyVals := spec.keyIndices.map fun i => row[i]?.getD .null
  let keyStr := (String.singleton '\x1f').intercalate (keyVals.map (·.toText))
  let entry := (groups.lookup keyStr).getD (keyVals, spec.aggs.map fun _ => AggState.new)
  let states := (spec.aggs.zip entry.2).map fun (agg, st) =>
    st.step agg.func (agg.colIndex.bind (row[·]?))
  groups.insert keyStr (entry.1, states)

/-- mirrors sqllite-core/src/vdbe/exec.rs:586-689 -/
def applyGroupBy (spec : GroupBySpec) (rows : List (List Value)) : List (List Value) :=
  (rows.foldl (addToGroup spec) ∅).values.map fun (key, states) =>
    key ++ (spec.aggs.zip states).map fun (agg, st) => st.finalize agg.func

/-- The comparator of `sort_buffer`. -/
def compareRows : List SortKey → List Value → List Value → Ordering
  | [], _, _ => .eq
  | key :: keys, a, b =>
    let ord := (a[key.colIndex]?.getD .null).compare (b[key.colIndex]?.getD .null)
    let ord := if key.desc then ord.swap else ord
    if ord ≠ .eq then ord else compareRows keys a b

/-- mirrors sqllite-core/src/vdbe/exec.rs:571-584 -/
def sortBuffer (keys : List SortKey) (rows : List (List Value)) : List (List Value) :=
  rows.mergeSort fun a b => compareRows keys a b ≠ .gt

/-! ## Instructions -/

namespace Vdbe

/-- mirrors sqllite-core/src/vdbe/exec.rs:520-526 -/
def setReg (idx : Int) (val : Value) : VdbeM Unit :=
  if idx < 0 then lift panicked
  else modify fun s => { s with regs := putReg s.regs idx.toNat val }

/-- mirrors sqllite-core/src/vdbe/exec.rs:528-530 -/
def getReg (s : Machine) (idx : Int) : Value := if idx < 0 then .null else regAt s.regs idx.toNat

/-- `p2 as usize`; an operand is an `i32`. -/
def address (p2 : Int) : Nat := if p2 < 0 then (p2 + 2 ^ 64).toNat else p2.toNat

theorem address_nat (n : Nat) : address n = n := by
  unfold address
  rw [if_neg (by omega), Int.toNat_natCast]

/-- `self.pc = p2 as usize`. -/
def jump (p2 : Int) : VdbeM Unit := modify fun s => { s with pc := address p2 }

/-- `self.pager`. -/
def onPager {α : Type} (m : PagerM α) : VdbeM α :=
  zoom (·.pager) (fun p s => { s with pager := p }) m

/-- The catalog and the pager. -/
def onDb {α : Type} (m : DbM α) : VdbeM α := zoom (·.toDb) (fun d s => { s with toDb := d }) m

/-- `cs.cursor`, for the cursor `id`. -/
def onCursor {α : Type} (id : Int) (cs : CursorState) (m : CursorM α) : VdbeM α :=
  zoom (fun s => cs.cursor.attach s.pager)
    (fun c s => { s with
      pager := c.btree.pager
      cursors := s.cursors.insert id { cs with cursor := c.detach } }) m

/-- `cs.btree`, for the cursor `id`. -/
def onBtree {α : Type} (id : Int) (cs : CursorState) (m : BtreeM α) : VdbeM α :=
  zoom (fun s => { pager := s.pager, rootPage := cs.rootPage, flags := tableFlags })
    (fun b s => { s with
      pager := b.pager
      cursors := s.cursors.insert id { cs with rootPage := b.rootPage } }) m

/-- What an opcode does with the cursor it names; nothing where there is none. -/
def withCursor (id : Int) (f : CursorState → VdbeM StepResult) : VdbeM StepResult := do
  let s ← get
  match s.cursors.lookup id with
  | none => pure .continue
  | some cs => f cs

/-- `self.set_reg(idx, val); Ok(StepResult::Continue)`. -/
def answer (idx : Int) (val : Value) : VdbeM StepResult := do
  setReg idx val
  pure .continue

/-- `if cond { self.pc = insn.p2 as usize; } Ok(StepResult::Continue)`. -/
def jumpIf (cond : Bool) (p2 : Int) : VdbeM StepResult := do
  if cond then jump p2
  pure .continue

/-- mirrors sqllite-core/src/vdbe/exec.rs:532-540 -/
def binaryNumeric (insn : Insn) (f : Float → Float → Float) : VdbeM StepResult := do
  let s ← get
  let a := (getReg s insn.p2).asReal.getD 0
  let b := (getReg s insn.p3).asReal.getD 0
  answer insn.p1 (.real (f a b).toBits)

/-- `a % b`: a zero divisor and `i64::MIN % -1` panic. -/
def remainder (a b : Int64) : Result Int64 :=
  if b = 0 ∨ a = Int64.minValue ∧ b = -1 then panicked else .ok (a % b)

/-- The condition of a comparison opcode. -/
def compareCond (opcode : Opcode) (cmp : Ordering) : Bool :=
  match opcode with
  | .eq => cmp = .eq
  | .ne => cmp ≠ .eq
  | .lt => cmp = .lt
  | .le => cmp ≠ .lt
  | .gt => cmp = .gt
  | .ge => cmp ≠ .gt
  | _ => false

/-- The value a comparison, `And`, `Or` or `Not` stores, from those it reads. -/
def logic (opcode : Opcode) (l r : Value) : Value :=
  match opcode with
  | .and => Value.ofBool (!l.isNull && !r.isNull && l.nonzero && r.nonzero)
  | .or => Value.ofBool (!l.isNull && !r.isNull && (l.nonzero || r.nonzero))
  | .not => Value.ofBool (l.isNull || !l.nonzero)
  | _ => Value.ofBool (compareCond opcode (l.compare r))

/-- mirrors sqllite-core/src/vdbe/exec.rs:552-569 -/
def allocateRowid (fuel : Nat) (cursorId : Int) : VdbeM Int := do
  let s ← get
  match s.cursors.lookup cursorId with
  | none => pure 1
  | some cs => onDb (Db.onCursor (tableCursor cs.rootPage) (BtreeCursor.nextRowid fuel))

/-- A table's cursor is opened where the catalog has its root page. -/
def openTable [Unicode] (id : Int) (p4 : InsnP4) : VdbeM StepResult :=
  match p4 with
  | .string tableName => do
    let s ← get
    match s.schema.table tableName with
    | none => failM .error s!"no such table: {tableName}"
    | some table => do
      let cs : CursorState :=
        { rootPage := table.rootPage, cursor := tableCursor table.rootPage, table := tableName }
      set { s with cursors := s.cursors.insert id cs }
      pure .continue
  | _ => failM .internal "missing table name"

/-- `values.get(i)` of the row the cursor stands on, NULL where the row is shorter. -/
def columnOf (cs : CursorState) (pager : Pager) (i : Int) : Result Value := do
  let values ← (cs.cursor.attach pager).values
  pure (if i < 0 then .null else values[i.toNat]?.getD .null)

/-- The rowid of an `Insert`. -/
def insertRowid (s : Machine) (insn : Insn) : Result Int :=
  if insn.opcode = .insertInt then .ok insn.p3
  else match getReg s insn.p3 with
    | .integer i => .ok i.toInt
    | _ => fail .mismatch "rowid must be integer"

/-- The record of an `Insert`. -/
def insertRecord (s : Machine) (insn : Insn) : Result Bytes :=
  match getReg s insn.p1 with
  | .blob b => .ok b
  | _ => fail .internal "expected record blob"

/-- `self.changes += 1`, overflow checked. -/
def countChange : VdbeM Unit := do
  let s ← get
  if s.changes + 1 < 2 ^ 63 then set { s with changes := s.changes + 1 } else lift panicked

/-- The opcodes `Insert` and `InsertInt`. -/
def executeInsert [Unicode] (fuel : Nat) (insn : Insn) (cs : CursorState) : VdbeM StepResult := do
  let s ← get
  let rowid ← lift (insertRowid s insn)
  let record ← lift (insertRecord s insn)
  let root ← onBtree insn.p2 cs do
    if insn.p5 ≠ 0 then Btree.replace rowid record else Btree.insert rowid record
    let b ← get
    pure b.rootPage
  onDb (Db.setTableRootPage fuel cs.table root)
  countChange
  modify fun s => { s with lastRowid := rowid }
  pure .continue

/-- The opcode `Delete`. -/
def executeDelete (id : Int) (cs : CursorState) : VdbeM StepResult :=
  match cs.cursor.currentKey with
  | none => pure .continue
  | some rowid => do
    let _ ← onBtree id cs (Btree.delete rowid)
    countChange
    pure .continue

/-- `for (i, val) in row.iter().enumerate() { self.set_reg(i, val.clone()); }`, from register `i` on. -/
def setRegsFrom : Nat → List Value → VdbeM Unit
  | _, [] => pure ()
  | i, val :: row => do
    setReg i val
    setRegsFrom (i + 1) row

/-- mirrors sqllite-core/src/vdbe/exec.rs:132-141 -/
def emitPragmaRow (idx : Nat) : VdbeM Unit := do
  let s ← get
  match s.pragmaPending[idx]? with
  | none => lift panicked
  | some row => do
    setRegsFrom 0 row
    modify fun s => { s with resultColumns := List.range row.length }

/-- The opcode `Pragma`. -/
def executePragmaInsn [Unicode] (p4 : InsnP4) : VdbeM StepResult :=
  match p4 with
  | .pragma name value => do
    let s ← get
    let rows ← onPager (executePragma name value s.schema)
    modify fun s => { s with pragmaPending := rows, pragmaRowIdx := 0 }
    if rows.isEmpty then pure .continue
    else do
      emitPragmaRow 0
      modify fun s => { s with pragmaRowIdx := 1 }
      pure .row
  | _ => pure .continue

/-- `count += 1` for each row. -/
def countRow (count : Int) (_ : BtreeCursor) : Result Int :=
  if count + 1 < 2 ^ 63 then .ok (count + 1) else panicked

/-- The values of the registers `p2`, `p2 + 1`, .. that a record is made of. -/
def recordValues (s : Machine) (insn : Insn) : List Value :=
  (List.range insn.p1.toNat).map fun i => getReg s (insn.p2 + i)

/-- The opcode `BufferNext`. -/
def bufferNext (p2 : Int) : VdbeM StepResult := do
  let s ← get
  match s.rowBuffer[s.bufferIdx]? with
  | none => do
    jump p2
    pure .continue
  | some row => do
    setRegsFrom 0 row
    modify fun s => { s with bufferIdx := s.bufferIdx + 1 }
    pure .continue

/-- mirrors sqllite-core/src/vdbe/exec.rs:143-518 -/
def execute [Unicode] (fuel : Nat) (insn : Insn) : VdbeM StepResult := do
  let s ← get
  match insn.opcode with
  | .init | .blob | .closer | .createBtree | .destroy | .dropTable | .setCookie => pure .continue
  | .halt =>
    let code := if insn.p1 = 0 then .ok else (ResultCode.tryFromI32 insn.p1).getD .ok
    let msg := match insn.p4 with
      | .string s => s
      | _ => ""
    pure (.halt code msg)
  | .goto => jumpIf true insn.p2
  | .integer => answer insn.p1 (.integer (Int64.ofInt insn.p2))
  | .int64 =>
    match insn.p4 with
    | .int64 v => answer insn.p1 (.integer v)
    | _ => pure .continue
  | .real =>
    match insn.p4 with
    | .real v => answer insn.p1 (.real v)
    | _ => pure .continue
  | .string =>
    match insn.p4 with
    | .string s => answer insn.p1 (.text s)
    | _ => pure .continue
  | .null => answer insn.p1 .null
  | .move | .copy => answer insn.p1 (getReg s insn.p2)
  | .resultRow =>
    set { s with resultColumns := List.range insn.p1.toNat }
    pure .row
  | .transaction =>
    onPager Pager.begin
    pure .continue
  | .openRead | .openWrite => openTable insn.p1 insn.p4
  | .rewind => withCursor insn.p1 fun cs => do
    let found ← onCursor insn.p1 cs BtreeCursor.first
    jumpIf (!found) insn.p2
  | .last | .sorterNext => withCursor insn.p1 fun cs => do
    let found ← onCursor insn.p1 cs BtreeCursor.next
    jumpIf found insn.p2
  | .column => withCursor insn.p2 fun cs => do
    let val ← lift (columnOf cs s.pager insn.p3)
    answer insn.p1 val
  | .rowid => withCursor insn.p2 fun cs =>
    match cs.cursor.currentKey with
    | some id => answer insn.p1 (.integer (Int64.ofInt id))
    | none => pure .continue
  | .makeRecord =>
    let record ← lift (encodeRecord (recordValues s insn))
    answer insn.p3 (.blob record)
  | .newRowid =>
    let rowid ← allocateRowid fuel insn.p2
    setReg insn.p1 (.integer (Int64.ofInt rowid))
    modify fun s => { s with lastRowid := rowid }
    pure .continue
  | .insert | .insertInt => withCursor insn.p2 (executeInsert fuel insn)
  | .delete => withCursor insn.p2 (executeDelete insn.p2)
  | .eq | .ne | .lt | .le | .gt | .ge | .and | .or | .not =>
    answer insn.p1 (logic insn.opcode (getReg s insn.p2) (getReg s insn.p3))
  | .if =>
    let val := getReg s insn.p1
    jumpIf (!val.isNull && val.nonzero) insn.p2
  | .ifNot =>
    let val := getReg s insn.p1
    jumpIf (val.isNull || !val.nonzero) insn.p2
  | .isNull => jumpIf (getReg s insn.p1).isNull insn.p2
  | .notNull => jumpIf (!(getReg s insn.p1).isNull) insn.p2
  | .add => binaryNumeric insn (· + ·)
  | .subtract => binaryNumeric insn (· - ·)
  | .multiply => binaryNumeric insn (· * ·)
  | .divide => binaryNumeric insn (· / ·)
  | .remainder =>
    let a := (getReg s insn.p2).asInteger.getD 0
    let b := (getReg s insn.p3).asInteger.getD 0
    let r ← lift (remainder a b)
    answer insn.p1 (.integer r)
  | .concat =>
    answer insn.p1 (.text ((getReg s insn.p2).toText ++ (getReg s insn.p3).toText))
  | .seekRowid => withCursor insn.p1 fun cs => do
    let rowid := match getReg s insn.p3 with
      | .integer i => i.toInt
      | _ => 0
    let found ← onCursor insn.p1 cs (BtreeCursor.seek rowid)
    jumpIf (!found) insn.p2
  | .notFound => withCursor insn.p1 fun cs => jumpIf cs.cursor.endOfTable insn.p2
  | .found => withCursor insn.p1 fun cs => jumpIf (!cs.cursor.endOfTable) insn.p2
  | .count => withCursor insn.p2 fun cs => do
    let count ← onDb (Db.onCursor (tableCursor cs.rootPage) (BtreeCursor.scan countRow fuel 0))
    answer insn.p1 (.integer (Int64.ofInt count))
  | .pragma => executePragmaInsn insn.p4
  | .rowData =>
    let row := (List.range insn.p1.toNat).map fun i => getReg s (i : Nat)
    set { s with rowBuffer := s.rowBuffer ++ [row] }
    pure .continue
  | .groupBy =>
    match insn.p4 with
    | .groupBy spec =>
      set { s with rowBuffer := applyGroupBy spec s.rowBuffer, bufferIdx := 0 }
      pure .continue
    | _ => pure .continue
  | .sort =>
    match insn.p4 with
    | .sortKeys keys =>
      set { s with rowBuffer := sortBuffer keys s.rowBuffer }
      pure .continue
    | _ => pure .continue
  | .bufferRewind =>
    set { s with bufferIdx := 0 }
    jumpIf s.rowBuffer.isEmpty insn.p2
  | .bufferNext => bufferNext insn.p2

/-! ## Steps -/

/-- One round of the loop of `step`: the next instruction. -/
def round [Unicode] (fuel : Nat) : VdbeM (Option ResultCode) := do
  let s ← get
  match s.program.insns[s.pc]? with
  | none => pure (some .done)
  | some insn => do
    set { s with pc := s.pc + 1 }
    match ← execute fuel insn with
    | .continue => pure none
    | .row => pure (some .row)
    | .done => pure (some .done)
    | .halt code msg => do
      modify fun s => { s with halted := true, haltCode := code, haltMessage := msg }
      if code.isOk then pure (some .done) else lift (fail code msg)

/-- mirrors sqllite-core/src/vdbe/exec.rs:74-104 -/
def step [Unicode] (fuel : Nat) : VdbeM ResultCode := do
  let s ← get
  if s.halted then pure s.haltCode
  else if s.pragmaRowIdx < s.pragmaPending.length then do
    emitPragmaRow s.pragmaRowIdx
    modify fun s => { s with pragmaRowIdx := s.pragmaRowIdx + 1 }
    pure .row
  else loop (round fuel) fuel

end Vdbe

end Sqllite
