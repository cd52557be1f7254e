import Sqllite.L3Sql.Compile
import Sqllite.L4Vdbe.CodeFlow
import Sqllite.L4Vdbe.InsertCode

/-!
# Where arithmetic panics

A program that `compile` makes is never changed by its run, and what it calculates goes
to registers. So an opcode that calculates can panic in two ways only: in the remainder,
and in the row id behind the largest one.

* `arithmetic_iff`: where an opcode that a run comes to does not panic.
-/
namespace Sqllite
open Lib Lib.Run Lib.Machine

namespace Vdbe

variable {prog : Program}

/-! ## The program is never changed -/

/-- The machine runs `prog`. -/
def Runs (prog : Program) (s : Machine) : Prop := s.program = prog

theorem runs_blind : Blind (fun _ => True) (Runs prog) := fun _ _ hprog _ _ _ _ _ _ _ hs => hprog.trans hs

section
variable [Unicode]

theorem execute_runs (fuel : Nat) (insn : Insn) : Keeps (Runs prog) (execute fuel insn) :=
  execute_keeps runs_blind fuel insn (fun _ _ => trivial) (fun _ => ⟨fun _ => trivial, fun _ _ hs => hs⟩)
    (fun _ _ _ _ _ _ _ => trivial) (fun _ _ _ hs => hs) (fun _ _ _ _ _ hs => hs) fun _ _ _ _ hs => hs

theorem round_runs (fuel : Nat) : Keeps (Runs prog) (round fuel) :=
  round_keeps (fun _ _ hs => hs) (fun _ _ _ hs => hs) fuel fun _ insn _ _ => execute_runs fuel insn

end

end Vdbe

/-! ## Compiled code aims at registers -/

/-- The opcodes that calculate. -/
def Opcode.isArithmetic : Opcode → Bool
  | .add | .subtract | .multiply | .divide | .remainder | .newRowid => true
  | _ => false

/-- Every result of a calculation goes to a register. -/
def Aimed (code : List Insn) : Prop := ∀ insn ∈ code, insn.opcode.isArithmetic = true → 0 ≤ insn.p1

section
variable {code code' : List Insn}

theorem Aimed.nil : Aimed [] := fun _ h => nomatch h

theorem Aimed.append (h : Aimed code) (h' : Aimed code') : Aimed (code ++ code') := by
  intro insn hmem
  rcases List.mem_append.mp hmem with hm | hm
  · exact h insn hm
  · exact h' insn hm

theorem Aimed.single {insn : Insn} (h : insn.opcode.isArithmetic = true → 0 ≤ insn.p1) : Aimed [insn] := by
  intro i hi
  rw [List.mem_singleton.mp hi]
  exact h

/-- Code without a calculation. -/
theorem Aimed.other (h : code.all (fun insn => !insn.opcode.isArithmetic) = true) : Aimed code := by
  intro insn hmem harith
  have hno := List.all_eq_true.mp h insn hmem
  rw [harith] at hno
  cases hno

/-- The code of an expression stores in the registers from its own one on. -/
theorem Valued.aimed {cursors : List Int} {low : Int} (h : Valued cursors low code) (hlow : 0 ≤ low) : Aimed code :=
  fun insn hmem _ => Int.le_trans hlow (h insn hmem).2.2

theorem aimed_loopCode (h : Aimed code) (start : Nat) (cursor : Int) : Aimed (loopCode start cursor code) :=
  (@Aimed.other [_] rfl).append (h.append (.other rfl))

theorem aimed_bodyAt {guards : List (List Insn)} {load : List Insn} {emit : Insn} (start : Nat)
    (hguards : ∀ g ∈ guards, Aimed g) (hload : Aimed load) (hemit : Aimed [emit]) :
    Aimed (bodyAt start guards load emit) := by
  refine Aimed.append (fun insn hmem => ?_) (hload.append hemit)
  obtain ⟨g, hg, hmem⟩ := List.mem_flatMap.mp hmem
  exact (hguards g hg).append (@Aimed.other [_] rfl) insn hmem

end

/-! ### Programs -/

/-- So does a program. -/
def Program.Aimed (prog : Program) : Prop := Sqllite.Aimed prog.insns

theorem aimed_openForWrite (name : String) : Aimed (openForWrite name) := .other rfl

/-- The rows of an `INSERT`, one after the other. -/
theorem aimed_rows {name : String} {n : Nat} {rows : List (List Expr)} {codes : List (List Insn)}
    (h : List.Forall₂ (fun row code => compileRow name n row = .ok code) rows codes) :
    Aimed codes.flatten := by
  induction h with
  | nil => exact .nil
  | @cons row code rows codes hrow _ ih =>
    unfold compileRow at hrow
    split at hrow
    · cases hrow
    · cases hrow
      exact (((@valued_compileValues [] 2 row).aimed (by decide)).append
        (List.forall_mem_cons.mpr ⟨fun _ => by decide, Aimed.other rfl⟩)).append ih

theorem aimed_compileChange (nReg : Nat) (name : String) (table : Schema.Table) (w : Option Expr)
    {change : List Insn} (h : Aimed change) : (compileChange nReg name table w change).Aimed := by
  have hbody : Aimed (changeBody 4 table w change) := by
    unfold changeBody
    cases w with
    | none => exact h
    | some w =>
      exact ((@valued_compileWhereExpr [0] w table 0 List.mem_cons_self 0).aimed (Int.le_refl 0)).append
        ((@Aimed.other [_] rfl).append h)
  unfold Program.Aimed
  rw [compileChange_code]
  exact (aimed_openForWrite name).append ((aimed_loopCode hbody 3 0).append (.other rfl))

theorem aimed_tailCode (start : Nat) (select : Select) (plan : SelectPlan) (buffered : Bool) :
    Aimed (tailCode start select plan buffered) := by
  rw [tailCode_eq, resultsBody]
  have hgroup : Aimed (groupCode plan) := by
    unfold groupCode
    split
    · exact .other rfl
    · exact .nil
  have hsort : Aimed (sortCode select plan) := by
    unfold sortCode
    split
    · exact .nil
    · exact .other rfl
  refine (hgroup.append (hsort.append ?_)).append (.other rfl)
  cases buffered with
  | true => exact .other rfl
  | false => exact .nil

section
variable [Unicode] {schema : Schema} {prog : Program}

theorem ScanCode.aimed {select : Select} (c : ScanCode select schema) : Aimed c.code := by
  have hemit : Aimed [c.emit] := by
    unfold ScanCode.emit emitInsn
    split
    · exact .other rfl
    · exact .other rfl
  have hbody : ∀ start, Aimed (bodyAt start c.guards c.load c.emit) := fun start =>
    aimed_bodyAt start (fun g hg => (c.valued_guard hg).aimed (by decide)) (c.valued_load.aimed (Int.le_refl 0)) hemit
  have hopen : Aimed ({ opcode := .init, p2 := 1 } :: openCode c.tables) :=
    (@Aimed.other [_] rfl).append (.other (by simp [Opcode.isArithmetic]))
  refine hopen.append (Aimed.append ?_ (aimed_tailCode _ _ _ _))
  unfold ScanCode.scans scansCode
  split
  · exact aimed_loopCode (aimed_loopCode (hbody _) _ _) _ _
  · exact aimed_loopCode (hbody _) _ _

theorem aimed_compileSelect {select : Select} (h : compileSelect select schema = .ok prog) : prog.Aimed := by
  rcases select_cases h with ⟨cursor, name, rfl⟩ | ⟨c, hcode⟩
  · exact Aimed.other rfl
  · unfold Program.Aimed
    rw [hcode]
    exact c.aimed

theorem aimed_compileInsert {insert : Insert} (h : compileInsert insert schema = .ok prog) : prog.Aimed := by
  unfold compileInsert at h
  cases ht : schema.table insert.table with
  | none =>
    rw [ht] at h
    cases h
  | some t =>
    rw [ht] at h
    obtain ⟨_, -, h⟩ := Res.bind_eq_ok.mp h
    obtain ⟨rows, hrows, h⟩ := Res.bind_eq_ok.mp h
    cases h
    exact ((aimed_openForWrite _).append (aimed_rows (Res.mapM_eq_ok.mp hrows))).append (.other rfl)

theorem aimed_compileUpdate {update : Update} (h : compileUpdate update schema = .ok prog) : prog.Aimed := by
  unfold compileUpdate at h
  cases ht : schema.table update.table with
  | none =>
    rw [ht] at h
    cases h
  | some t =>
    rw [ht] at h
    obtain ⟨_, -, h⟩ := Res.bind_eq_ok.mp h
    cases h
    have hassign := (valued_compileUpdate_assignments update t).aimed (by decide)
    exact aimed_compileChange _ _ _ _ ((Aimed.append (.other (by simp [Opcode.isArithmetic])) hassign).append (.other rfl))

theorem compile_aimed {sql : Parsed} (h : compile sql schema = .ok prog) : prog.Aimed := by
  cases sql with
  | error e => cases h
  | ok stmt =>
    cases stmt with
    | select s => exact aimed_compileSelect h
    | insert i => exact aimed_compileInsert h
    | update u => exact aimed_compileUpdate h
    | delete d =>
      have hdelete : compileDelete d schema = .ok prog := h
      unfold compileDelete at hdelete
      split at hdelete
      · cases hdelete
      · cases hdelete
        exact aimed_compileChange _ _ _ _ (.other rfl)
    | _ =>
      cases h
      exact Aimed.other rfl

end

/-! ## Runs -/

/-- The states a statement comes to, from call to call; between two calls other statements
may change what it shares with them. -/
inductive Visits [Unicode] (s : Machine) : Machine → Prop
  | start : Visits s s
  | round {t u : Machine} {fuel : Nat} {found : Option ResultCode} : Visits s t →
      Vdbe.round fuel t = .ok found u → Visits s u
  | step {t u : Machine} {fuel : Nat} {code : ResultCode} : Visits s t → Vdbe.step fuel t = .ok code u →
      Visits s u
  | reset {t : Machine} : Visits s t → Visits s { t.toVdbe.reset, t.toDb with }
  | other {t : Machine} (d : Db) : Visits s t → Visits s { t with toDb := d }

namespace Vdbe

/-- The operands of a remainder have one, and every row id of the table has a next one. -/
def InRange (insn : Insn) (s : Machine) : Prop :=
  match insn.opcode with
  | .remainder =>
    let a := (getReg s insn.p2).asInteger.getD 0
    let b := (getReg s insn.p3).asInteger.getD 0
    b ≠ 0 ∧ ¬ (a = Int64.minValue ∧ b = -1)
  | .newRowid => ∀ cs, s.cursors.lookup insn.p2 = some cs → ∀ rows c',
      BtreeCursor.Yields BtreeCursor.first ((tableCursor cs.rootPage).attach s.pager) rows c' →
      ∀ r ∈ rows, r.1 < 2 ^ 63 - 1
  | _ => True

section
variable [Unicode] {prog : Program} {s t : Machine} {insn : Insn}

/-- The instruction returns a value or an error; the only panic is that of a scan that
does not come to the end of its table. -/
def Evaluates (insn : Insn) (s : Machine) : Prop :=
  ∀ fuel t, execute fuel insn s = .error .panic t → insn.opcode = .newRowid ∧
    ∃ cs, s.cursors.lookup insn.p2 = some cs ∧ ∀ m c',
      BtreeCursor.scan BtreeCursor.maxKey fuel 0 ((tableCursor cs.rootPage).attach s.pager) ≠ .ok m c'

theorem step_runs (fuel : Nat) : Keeps (Runs prog) (step fuel) :=
  step_keeps runs_blind (fun _ _ hs => hs) (fun _ _ _ hs => hs) fuel (fun _ insn _ _ => execute_runs fuel insn) fun _ _ _ _ => trivial

theorem visits_runs (h : Visits s t) (hs : Runs prog s) : Runs prog t := by
  induction h with
  | start => exact hs
  | @round t u fuel found _ hround ih => exact (round_runs fuel).of_ok ih hround
  | @step t u fuel code _ hstep ih => exact (step_runs fuel).of_ok ih hstep
  | reset _ ih => exact ih
  | other d _ ih => exact ih

omit [Unicode] in
theorem answer_ok {r : Int} (hr : 0 ≤ r) (v : Value) (s : Machine) :
    ∃ t, answer r v s = .ok .continue t := by
  obtain ⟨n, rfl⟩ := Int.eq_ofNat_of_zero_le hr
  exact ⟨_, answer_nat n v⟩

theorem evaluates_binary (hop : isBinary insn.opcode = true) (hp : 0 ≤ insn.p1) (hne : insn.opcode ≠ .newRowid) :
    Evaluates insn s ↔ combined insn.opcode (getReg s insn.p2) (getReg s insn.p3) ≠ .error .panic := by
  have hrun : ∀ fuel, execute fuel insn s =
      (lift (combined insn.opcode (getReg s insn.p2) (getReg s insn.p3)) >>= answer insn.p1) s :=
    fun fuel => execute_binary hop
  cases hv : combined insn.opcode (getReg s insn.p2) (getReg s insn.p3) with
  | ok v =>
    obtain ⟨t, ht⟩ := answer_ok hp v s
    refine iff_of_true (fun fuel u hu => ?_) nofun
    rw [hrun, hv, bind_ok (lift_ok _ _), ht] at hu
    cases hu
  | error e =>
    constructor
    · rintro h ⟨⟩
      exact hne (h 0 s (by rw [hrun, hv]; rfl)).1
    · intro h fuel u hu
      rw [hrun, hv] at hu
      cases hu
      exact absurd rfl h

/-- It panics where the cursor's calculation does. -/
theorem execute_newRowid_panic {cs : CursorState} (hop : insn.opcode = .newRowid) (hp : 0 ≤ insn.p1)
    (hcs : s.cursors.lookup insn.p2 = some cs) (fuel : Nat) :
    (∃ t, execute fuel insn s = .error .panic t) ↔
      ∃ c', BtreeCursor.nextRowid fuel ((tableCursor cs.rootPage).attach s.pager) = .error .panic c' := by
  rw [execute_newRowid hop hcs]
  cases hnext : BtreeCursor.nextRowid fuel ((tableCursor cs.rootPage).attach s.pager) with
  | ok rowid c' =>
    have hcursor : Db.onCursor (tableCursor cs.rootPage) (BtreeCursor.nextRowid fuel) s.toDb =
        .ok rowid { s.toDb with pager := c'.btree.pager } := zoom_ok hnext
    have hdb : onDb (Db.onCursor (tableCursor cs.rootPage) (BtreeCursor.nextRowid fuel)) s =
        .ok rowid { s with pager := c'.btree.pager } := zoom_ok hcursor
    obtain ⟨n, hn⟩ := Int.eq_ofNat_of_zero_le hp
    refine iff_of_false ?_ ?_
    · rintro ⟨t, ht⟩
      rw [hn, bind_ok hdb, bind_ok (setReg_nat n _ _)] at ht
      cases ht
    · rintro ⟨c'', h⟩
      cases h
  | error e c' =>
    have hcursor : Db.onCursor (tableCursor cs.rootPage) (BtreeCursor.nextRowid fuel) s.toDb =
        .error e { s.toDb with pager := c'.btree.pager } := zoom_error hnext
    have hdb : onDb (Db.onCursor (tableCursor cs.rootPage) (BtreeCursor.nextRowid fuel)) s =
        .error e { s with pager := c'.btree.pager } := zoom_error hcursor
    rw [bind_error hdb]
    constructor
    · rintro ⟨t, ht⟩
      cases ht
      exact ⟨c', rfl⟩
    · rintro ⟨c'', h⟩
      cases h
      exact ⟨_, rfl⟩

/-- Without a cursor it is the row id 1. -/
theorem execute_newRowid_none (hop : insn.opcode = .newRowid) (hp : 0 ≤ insn.p1)
    (hcs : s.cursors.lookup insn.p2 = none) (fuel : Nat) : ∃ t, execute fuel insn s = .ok .continue t := by
  obtain ⟨op, p1, p2, p3, p4, p5⟩ := insn
  cases hop
  obtain ⟨n, rfl⟩ : ∃ n : Nat, p1 = n := Int.eq_ofNat_of_zero_le hp
  have halloc : allocateRowid fuel p2 s = .ok 1 s := by
    have hcs : s.cursors.lookup p2 = none := hcs
    unfold allocateRowid
    rw [bind_ok (get_apply s), hcs]
    rfl
  have hread : execute fuel { opcode := .newRowid, p1 := n, p2 := p2, p3 := p3, p4 := p4, p5 := p5 } s =
      (allocateRowid fuel p2 >>= fun rowid => do
        setReg n (.integer (Int64.ofInt rowid))
        modify fun s => { s with lastRowid := rowid }
        pure .continue) s := rfl
  rw [hread, bind_ok halloc, bind_ok (setReg_nat n _ _)]
  exact ⟨_, rfl⟩

theorem evaluates_newRowid (hop : insn.opcode = .newRowid) (hp : 0 ≤ insn.p1) :
    Evaluates insn s ↔ InRange insn s := by
  unfold InRange
  rw [hop]
  constructor
  · intro h cs hcs rows c' hy r hr
    by_contra hlarge
    have hscan := BtreeCursor.scan_maxKey (m := 0) hy (Nat.le_refl _)
    have hnext : BtreeCursor.nextRowid rows.length ((tableCursor cs.rootPage).attach s.pager) = .error .panic c' := by
      have hkey := key_le_largestKey (m := 0) hr
      unfold BtreeCursor.nextRowid
      rw [bind_ok hscan, if_neg (by omega)]
      rfl
    obtain ⟨t, ht⟩ := (execute_newRowid_panic hop hp hcs _).mpr ⟨c', hnext⟩
    obtain ⟨-, cs', hcs', hno⟩ := h _ t ht
    rw [hcs] at hcs'
    cases hcs'
    exact hno _ _ hscan
  · intro h fuel t ht
    refine ⟨hop, ?_⟩
    cases hcs : s.cursors.lookup insn.p2 with
    | none =>
      obtain ⟨u, hu⟩ := execute_newRowid_none hop hp hcs fuel
      rw [hu] at ht
      cases ht
    | some cs =>
      refine ⟨cs, rfl, fun m c' hscan => ?_⟩
      obtain ⟨c'', hnext⟩ := (execute_newRowid_panic hop hp hcs fuel).mp ⟨t, ht⟩
      obtain ⟨rows, hy, -, rfl⟩ := BtreeCursor.scan_maxKey_iff.mp hscan
      have hle : largestKey 0 rows ≤ 2 ^ 63 - 2 :=
        largestKey_le (by decide) fun r hr => Int.le_sub_one_of_lt (h cs hcs rows c' hy r hr)
      unfold BtreeCursor.nextRowid at hnext
      rw [bind_ok hscan, if_pos (by omega)] at hnext
      cases hnext

omit [Unicode] in
theorem remainder_panic {a b : Int64} : remainder a b ≠ .error .panic ↔
    b ≠ 0 ∧ ¬ (a = Int64.minValue ∧ b = -1) := by
  unfold remainder
  split
  · rename_i h
    exact iff_of_false (fun hne => hne rfl) fun ⟨h0, h1⟩ => h.elim h0 h1
  · rename_i h
    exact iff_of_true nofun (not_or.mp h)

omit [Unicode] in
/-- The other calculations are with reals, or with the 64 bits of a number. -/
theorem combined_inRange (hbin : isBinary insn.opcode = true) (harith : insn.opcode.isArithmetic = true) :
    combined insn.opcode (getReg s insn.p2) (getReg s insn.p3) ≠ .error .panic ↔ InRange insn s := by
  obtain ⟨op, p1, p2, p3, p4, p5⟩ := insn
  cases op with
  | add | subtract | multiply | divide => exact iff_of_true nofun trivial
  | remainder =>
    refine Iff.trans ?_ (remainder_panic (a := (getReg s p2).asInteger.getD 0)
      (b := (getReg s p3).asInteger.getD 0))
    dsimp only [combined]
    cases remainder ((getReg s p2).asInteger.getD 0) ((getReg s p3).asInteger.getD 0) with
    | ok v => exact iff_of_true nofun nofun
    | error e => exact not_congr ⟨fun h => by cases h; rfl, fun h => by cases h; rfl⟩
  | newRowid => cases hbin
  | _ => cases harith

theorem evaluates_iff (harith : insn.opcode.isArithmetic = true) (hp : 0 ≤ insn.p1) :
    Evaluates insn s ↔ InRange insn s := by
  by_cases hop : insn.opcode = .newRowid
  · exact evaluates_newRowid hop hp
  · have hbin : isBinary insn.opcode = true := by
      revert harith hop
      cases insn.opcode <;> decide
    exact (evaluates_binary hbin hp hop).trans (combined_inRange hbin harith)

end

end Vdbe

open Vdbe

section
variable [Unicode]

/-- In every run of a compiled statement, an opcode that calculates returns a value or an
error where its operands have one, and panics elsewhere. -/
theorem Vdbe.arithmetic_iff (sql : Parsed) (schema : Schema) (prog : Program) (h : compile sql schema = .ok prog)
    (d : Db) (s : Machine) (hs : Visits (fresh prog d) s) (insn : Insn)
    (hinsn : s.program.insns[s.pc]? = some insn) (harith : insn.opcode.isArithmetic = true) :
    Evaluates insn (s.moveTo (s.pc + 1) s.regs) ↔ InRange insn (s.moveTo (s.pc + 1) s.regs) := by
  have hprog : s.program = prog := visits_runs hs rfl
  rw [hprog] at hinsn
  exact evaluates_iff harith (compile_aimed h insn (List.mem_of_getElem? hinsn) harith)

end

namespace Vdbe

/-- `INSERT INTO t VALUES (a % b)`. -/
def insertRemainder (a b : Int64) : Parsed :=
  .ok (.insert (insertRow [] [.binaryOp .mod (.integer a) (.integer b)]))

/-- Its program. -/
def remainderProgram (a b : Int64) : Program :=
  { Program.new with
    nReg := 16
    insns := openForWrite "t" ++ [{ opcode := .integer, p1 := 3, p2 := asI32 a }, { opcode := .integer, p1 := 4, p2 := asI32 b },
      { opcode := .remainder, p1 := 2, p2 := 3, p3 := 4 }, { opcode := .newRowid, p1 := 1 },
      { opcode := .makeRecord, p1 := 1, p2 := 2, p3 := 10 }, { opcode := .insert, p1 := 10, p3 := 1 },
      { opcode := .halt }] }

section
variable [Unicode]

/-- The table is opened, and the operands are in their registers. -/
theorem remainderProgram_visits (a b : Int64) {d : Db} {t : Schema.Table} (ht : d.schema.table "t" = some t) :
    ∃ s, Visits (fresh (remainderProgram a b) d) s ∧ s.program = remainderProgram a b ∧ s.pc = 5 ∧
      getReg s 3 = .integer (Int64.ofInt (asI32 a)) ∧ getReg s 4 = .integer (Int64.ofInt (asI32 b)) := by
  let s₀ : Machine := fresh (remainderProgram a b) d
  let cs : CursorState := { rootPage := t.rootPage, cursor := tableCursor t.rootPage, table := "t" }
  let s₁ : Machine := s₀.moveTo 1 s₀.regs
  let s₂ : Machine := { s₁.moveTo 2 s₁.regs with pager := { d.pager with inTransaction := true } }
  let s₃ : Machine := { s₂.moveTo 3 s₂.regs with cursors := s₂.cursors.insert 0 cs }
  let s₄ : Machine := s₃.moveTo 4 (putReg s₃.regs 3 (.integer (Int64.ofInt (asI32 a))))
  let s₅ : Machine := s₄.moveTo 5 (putReg s₄.regs 4 (.integer (Int64.ofInt (asI32 b))))
  have h₁ : round 0 s₀ = .ok none s₁ := round_continue (show s₀.program.insns[s₀.pc]? = some { opcode := .init, p2 := 1 } from rfl) rfl
  have h₂ : round 0 s₁ = .ok none s₂ := round_continue (show s₁.program.insns[s₁.pc]? = some { opcode := .transaction } from rfl) rfl
  have h₃ : round 0 s₂ = .ok none s₃ := by
    have hinsn : s₂.program.insns[s₂.pc]? = some { opcode := .openWrite, p4 := .string "t" } := rfl
    refine round_continue hinsn ?_
    have ht' : (s₂.moveTo (s₂.pc + 1) s₂.regs).schema.table "t" = some t := ht
    show openTable 0 (.string "t") (s₂.moveTo (s₂.pc + 1) s₂.regs) = _
    unfold openTable
    dsimp only
    rw [bind_ok (get_apply _), ht']
    rfl
  have h₄ : round 0 s₃ = .ok none s₄ := by
    have hinsn : s₃.program.insns[s₃.pc]? = some { opcode := .integer, p1 := 3, p2 := asI32 a } := rfl
    exact round_continue hinsn (answer_nat 3 _)
  have h₅ : round 0 s₄ = .ok none s₅ := by
    have hinsn : s₄.program.insns[s₄.pc]? = some { opcode := .integer, p1 := 4, p2 := asI32 b } := rfl
    exact round_continue hinsn (answer_nat 4 _)
  refine ⟨s₅, ((((Visits.start.round h₁).round h₂).round h₃).round h₄).round h₅, rfl, rfl, ?_, ?_⟩
  · refine (getReg_nat s₅ 3).trans ?_
    show regAt (putReg (putReg s₃.regs 3 _) 4 _) 3 = _
    rw [regAt_putReg_ne _ _ (by decide), regAt_putReg_self]
  · refine (getReg_nat s₅ 4).trans ?_
    show regAt (putReg s₄.regs 4 _) 4 = _
    rw [regAt_putReg_self]

end

/-- `5 % 3` has a value. -/
theorem arithmetic_iff_five : let _ := Unicode.ascii
    ∃ prog s insn, compile (insertRemainder 5 3) oneRowDb.schema = .ok prog ∧ Visits (fresh prog oneRowDb) s ∧
      s.program.insns[s.pc]? = some insn ∧ Evaluates insn (s.moveTo (s.pc + 1) s.regs) := by
  intro _
  have hprog : compile (insertRemainder 5 3) oneRowDb.schema = .ok (remainderProgram 5 3) := by decide +kernel
  obtain ⟨s, hs, hprogram, hpc, ha, hb⟩ := remainderProgram_visits 5 3 (d := oneRowDb) (t := tableA) (by decide +kernel)
  have hinsn : s.program.insns[s.pc]? = some { opcode := .remainder, p1 := 2, p2 := 3, p3 := 4 } := by
    rw [hprogram, hpc]
    rfl
  refine ⟨_, s, _, hprog, hs, hinsn, ?_⟩
  refine (arithmetic_iff _ _ _ hprog oneRowDb s hs _ hinsn rfl).mpr ?_
  have ha' : getReg (s.moveTo (s.pc + 1) s.regs) 3 = .integer 5 := ha
  have hb' : getReg (s.moveTo (s.pc + 1) s.regs) 4 = .integer 3 := hb
  unfold InRange
  dsimp only
  rw [ha', hb']
  decide

/-- `5 % 0` panics. -/
theorem remainder_panics : let _ := Unicode.ascii
    ∃ prog s insn, compile (insertRemainder 5 0) oneRowDb.schema = .ok prog ∧ Visits (fresh prog oneRowDb) s ∧
      s.program.insns[s.pc]? = some insn ∧ insn.opcode.isArithmetic = true ∧
      ¬ Evaluates insn (s.moveTo (s.pc + 1) s.regs) := by
  intro _
  have hprog : compile (insertRemainder 5 0) oneRowDb.schema = .ok (remainderProgram 5 0) := by decide +kernel
  obtain ⟨s, hs, hprogram, hpc, ha, hb⟩ := remainderProgram_visits 5 0 (d := oneRowDb) (t := tableA) (by decide +kernel)
  have hinsn : s.program.insns[s.pc]? = some { opcode := .remainder, p1 := 2, p2 := 3, p3 := 4 } := by
    rw [hprogram, hpc]
    rfl
  refine ⟨_, s, _, hprog, hs, hinsn, rfl, ?_⟩
  rw [evaluates_iff rfl (by decide)]
  have hb' : getReg (s.moveTo (s.pc + 1) s.regs) 4 = .integer 0 := hb
  unfold InRange
  dsimp only
  rw [hb']
  exact fun h => h.1 rfl

example : let _ := Unicode.ascii
    compile (insertRemainder 7 3) oneRowDb.schema = .ok (remainderProgram 7 3) := by
  decide +kernel

end Vdbe

end Sqllite
