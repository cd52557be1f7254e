import Sqllite.L4Vdbe.Registers
import Sqllite.L4Vdbe.Where
import Sqllite.L4Vdbe.Reset

/-!
# A statement that is run again

`reset` takes a statement back to its beginning. It keeps what `changes` and
`last_insert_rowid` return, the number of registers and the columns of the last row. A
caller who reads rows where there are rows can tell the counters only.

Main results:
* `compile_kinds`: a compiled program writes a table first, shows no row, or only reads.
* `step_row`: a step that tells a row has one.
* `rerun_iff`: a used statement is new behind `reset`, where its counters are zero.
-/
namespace Sqllite
open Lib Lib.Run Lib.Machine Lib.Flow Vdbe

namespace Vdbe

/-! ## Rows -/

/-- The row of a pragma was returned last. -/
def PragmaShown (s : Machine) : Prop :=
  ∃ row, s.pragmaPending[s.pragmaRowIdx - 1]? = some row ∧ s.resultColumns = List.range row.length ∧ row.length ≤ s.regs.length

theorem emitPragmaRow_shows {s t : Machine} {idx : Nat} (h : emitPragmaRow idx s = .ok () t) :
    PragmaShown { t with pragmaRowIdx := idx + 1 } ∧ t.halted = s.halted ∧ t.program = s.program ∧
      t.pragmaRowIdx = s.pragmaRowIdx := by
  cases hrow : s.pragmaPending[idx]? with
  | none =>
    unfold emitPragmaRow at h
    rw [bind_ok (get_apply s), hrow] at h
    cases h
  | some row =>
    rw [emitPragmaRow, bind_ok (get_apply s), hrow] at h
    dsimp only at h
    rw [bind_ok (setRegsFrom_zero row s)] at h
    cases h
    refine ⟨⟨row, hrow, rfl, ?_⟩, rfl, rfl, rfl⟩
    show row.length ≤ (row ++ s.regs.drop row.length).length
    rw [List.length_append]
    exact Nat.le_add_right _ _

/-- It returns no row. -/
def Silent (m : VdbeM StepResult) : Prop := ∀ s t, m s ≠ .ok .row t

section
variable {α : Type}

theorem Silent.bind {m : VdbeM α} {f : α → VdbeM StepResult} (h : ∀ a, Silent (f a)) : Silent (m >>= f) := by
  intro s t heq
  obtain ⟨a, u, -, hf⟩ := bind_eq_ok.mp heq
  exact h a u t hf

theorem Silent.pure {r : StepResult} (h : r ≠ .row) : Silent (Pure.pure r) := by
  intro s t heq
  cases heq
  exact h rfl

theorem Silent.fails {e : Fault SqlliteError} : Silent (lift (.error e)) := by
  intro s t heq
  cases heq

theorem Silent.continue : Silent (Pure.pure .continue) := .pure nofun

theorem Silent.answer (r : Int) (v : Value) : Silent (answer r v) := .bind fun _ => .continue

theorem Silent.jumpIf (c : Bool) (p2 : Int) : Silent (jumpIf c p2) := by
  unfold Vdbe.jumpIf
  cases c with
  | false => exact .continue
  | true => exact .bind fun _ => .continue

theorem Silent.bufferNext (p2 : Int) : Silent (bufferNext p2) := by
  refine .bind fun s => ?_
  cases s.rowBuffer[s.bufferIdx]? with
  | none => exact .bind fun _ => .continue
  | some row => exact .bind fun _ => .bind fun _ => .continue

theorem Silent.openTable [Unicode] (id : Int) (p4 : InsnP4) : Silent (openTable id p4) := by
  unfold Vdbe.openTable
  split
  · refine .bind fun s => ?_
    split
    · exact .fails
    · exact .bind fun _ => .continue
  · exact .fails

theorem Silent.withCursor {id : Int} {f : CursorState → VdbeM StepResult} (h : ∀ cs, Silent (f cs)) : Silent (withCursor id f) := by
  refine .bind fun s => ?_
  cases s.cursors.lookup id with
  | none => exact .continue
  | some cs => exact h cs

theorem Silent.executeDelete (id : Int) (cs : CursorState) : Silent (executeDelete id cs) := by
  unfold Vdbe.executeDelete
  cases cs.cursor.currentKey with
  | none => exact .continue
  | some rowid => exact .bind fun _ => .bind fun _ => .continue

end

section
variable [Unicode]

theorem Silent.executeInsert (fuel : Nat) (insn : Insn) (cs : CursorState) : Silent (executeInsert fuel insn cs) :=
  .bind fun _ => .bind fun _ => .bind fun _ => .bind fun _ => .bind fun _ => .bind fun _ => .bind fun _ => .continue

/-- `ResultRow` and `Pragma` return rows, no other opcode does. -/
theorem execute_silent (fuel : Nat) {insn : Insn} (hrow : insn.opcode ≠ .resultRow) (hpragma : insn.opcode ≠ .pragma) :
    Silent (execute fuel insn) := by
  obtain ⟨op, p1, p2, p3, p4, p5⟩ := insn
  refine .bind fun s => ?_
  cases op with
  | resultRow => exact absurd rfl hrow
  | pragma => exact absurd rfl hpragma
  | init | blob | closer | createBtree | destroy | dropTable | setCookie => exact .continue
  | halt => exact .pure nofun
  | goto | isNull | notNull | «if» | ifNot => exact .jumpIf _ _
  | integer | null | move | copy | eq | ne | lt | le | gt | ge | and | or | not | concat => exact .answer _ _
  | int64 | real | string => cases p4 <;> first | exact .answer _ _ | exact .continue
  | rowData => exact .bind fun _ => .continue
  | bufferRewind => exact .bind fun _ => .jumpIf _ _
  | groupBy | sort => cases p4 <;> first | exact .continue | exact .bind fun _ => .continue
  | transaction => exact .bind fun _ => .continue
  | openRead | openWrite => exact .openTable _ _
  | rewind | last | sorterNext | seekRowid => exact .withCursor fun _ => .bind fun _ => .jumpIf _ _
  | column => exact .withCursor fun _ => .bind fun _ => .answer _ _
  | rowid =>
    refine .withCursor fun cs => ?_
    cases cs.cursor.currentKey with
    | none => exact .continue
    | some id => exact .answer _ _
  | makeRecord | remainder => exact .bind fun _ => .answer _ _
  | newRowid => exact .bind fun _ => .bind fun _ => .bind fun _ => .continue
  | insert | insertInt => exact .withCursor fun _ => .executeInsert _ _ _
  | delete => exact .withCursor fun _ => .executeDelete _ _
  | add | subtract | multiply | divide => exact .bind fun _ => .answer _ _
  | notFound | found => exact .withCursor fun _ => .jumpIf _ _
  | count => exact .withCursor fun _ => .bind fun _ => .answer _ _
  | bufferNext => exact .bufferNext _

theorem execute_row {insn : Insn} {fuel : Nat} {s t : Machine} (h : execute fuel insn s = .ok .row t) :
    insn.opcode = .resultRow ∧ t = resultOf s insn.p1.toNat ∨ insn.opcode = .pragma ∧ PragmaShown t := by
  by_cases hrow : insn.opcode = .resultRow
  · refine .inl ⟨hrow, ?_⟩
    unfold execute at h
    rw [bind_ok (get_apply s), hrow] at h
    cases h
    rfl
  by_cases hpragma : insn.opcode = .pragma
  · refine .inr ⟨hpragma, ?_⟩
    obtain ⟨op, p1, p2, p3, p4, p5⟩ := insn
    obtain rfl : op = .pragma := hpragma
    have hpragma : executePragmaInsn p4 s = .ok .row t := h
    cases p4 with
    | pragma name value =>
      unfold executePragmaInsn at hpragma
      dsimp only at hpragma
      rw [bind_ok (get_apply s)] at hpragma
      obtain ⟨rows, u, -, hpragma⟩ := bind_eq_ok.mp hpragma
      rw [bind_ok (modify_apply _ _)] at hpragma
      split at hpragma
      · cases hpragma
      · obtain ⟨_, x, hemit, hpragma⟩ := bind_eq_ok.mp hpragma
        rw [bind_ok (modify_apply _ _)] at hpragma
        cases hpragma
        exact (emitPragmaRow_shows hemit).1
    | _ => cases hpragma
  · exact absurd h (execute_silent fuel hrow hpragma s t)

end

/-! ## Rows of a step -/

section
variable [Unicode] {s t : Machine} {fuel : Nat}

/-- A round that returns a row has executed a `ResultRow` or a `Pragma`. -/
theorem round_row_cases (h : round fuel s = .ok (some .row) t) :
    (∃ insn, s.program.insns[s.pc]? = some insn ∧ insn.opcode = .resultRow ∧
      t = resultOf { s with pc := s.pc + 1 } insn.p1.toNat) ∨ PragmaShown t := by
  obtain ⟨insn, executed, hinsn, -, hexec⟩ := round_goes h (.inr rfl)
  rw [round_eq fuel hinsn, bind_ok hexec] at h
  cases executed with
  | «continue» | done => cases h
  | row =>
    rcases execute_row hexec with ⟨hop, heq⟩ | ⟨-, hshown⟩
    · exact .inl ⟨insn, hinsn, hop, heq⟩
    · exact .inr hshown
  | halt code msg =>
    cases code <;> cases h

theorem round_halted {result : Option ResultCode} (h : round fuel s = .ok result t) (hgo : result = none ∨ result = some .row) :
    t.program = s.program ∧ t.halted = s.halted := by
  obtain ⟨insn, executed, hinsn, hne, hexec⟩ := round_goes h hgo
  obtain ⟨hprog, -⟩ := round_edge fuel hinsn hne
  rw [post_ok h] at hprog
  refine ⟨hprog, ?_⟩
  have hkeeps : Keeps (fun u => u.halted = s.halted) (execute fuel insn) :=
    execute_keeps (P := fun _ => True) (fun _ _ _ _ _ _ _ hmarks _ _ hu => (congrArg (·.1) hmarks).trans hu) fuel insn
      (fun _ _ => trivial) (fun _ => ⟨fun _ => trivial, fun _ _ hu => hu⟩) (fun _ _ _ _ _ _ _ => trivial)
      (fun _ _ _ hu => hu) (fun _ _ _ _ _ hu => hu) fun _ _ _ _ hu => hu
  have hpost := hkeeps.post (s := { s with pc := s.pc + 1 }) rfl
  rwa [post_ok hexec] at hpost

/-- What a step does that returns a row. -/
theorem step_row (hrun : s.halted = false) (h : step fuel s = .ok .row t) :
    (s.pragmaPending ≠ [] ∧ PragmaShown t ∧ t.program = s.program ∧ t.halted = false) ∨
      loop (round fuel) fuel s = .ok .row t := by
  unfold step at h
  rw [bind_ok (get_apply s), hrun, if_neg (by decide)] at h
  split at h
  · next hidx =>
    refine .inl ⟨fun hnil => ?_, ?_⟩
    · rw [hnil] at hidx
      exact absurd hidx (Nat.not_lt_zero _)
    · obtain ⟨_, u, hemit, h⟩ := bind_eq_ok.mp h
      rw [bind_ok (modify_apply _ _)] at h
      cases h
      obtain ⟨hshown, hhalted, hprog, hrow⟩ := emitPragmaRow_shows hemit
      exact ⟨hrow ▸ hshown, hprog, hhalted.trans hrun⟩
  · exact .inr h

/-- The row of a step is that of a pragma, or the registers are as many as the program needs. -/
def Shown (s : Machine) : Prop :=
  PragmaShown s ∨ s.pragmaPending = [] ∧ s.regs.length = s.program.span ∧
    ∃ insn, s.program.insns[s.pc - 1]? = some insn ∧ s.resultColumns = List.range insn.p1.toNat

omit [Unicode] in
/-- A register that is there on both sides or on neither is the same. -/
theorem regs_alike {regs regs' : List Value} {i : Nat} (h : regAt regs i = regAt regs' i)
    (hlen : i < regs.length ↔ i < regs'.length) : regs[i]? = regs'[i]? := by
  unfold regAt at h
  by_cases hi : i < regs.length
  · rw [List.getElem?_eq_getElem hi, List.getElem?_eq_getElem (hlen.mp hi)] at h ⊢
    exact congrArg some h
  · rw [List.getElem?_eq_none (Nat.not_lt.mp hi), List.getElem?_eq_none (Nat.not_lt.mp fun hj => hi (hlen.mpr hj))]

omit [Unicode] in
theorem currentRow_congr {n : Nat} (hs : s.resultColumns = List.range n) (ht : t.resultColumns = List.range n)
    (hregs : ∀ i, i < n → s.regs[i]? = t.regs[i]?) : s.currentRow = t.currentRow := by
  unfold currentRow columnCount
  rw [hs, ht]
  refine List.filterMap_congr fun i hi => ?_
  rw [List.length_range] at hi
  have hlt := List.mem_range.mp hi
  unfold columnValue
  rw [hs, ht, List.getElem?_range hlt, Option.bind_some, Option.bind_some]
  exact hregs i hlt

omit [Unicode] in
theorem currentRow_alike (h : Like s t) (hs : Shown s) (ht : Shown t) : s.currentRow = t.currentRow := by
  obtain ⟨regs, columns, msg, heq, hregs⟩ := h
  have hprog : s.program = t.program := heq ▸ rfl
  have hpc : s.pc = t.pc := heq ▸ rfl
  have hpending : s.pragmaPending = t.pragmaPending := heq ▸ rfl
  have hidx : s.pragmaRowIdx = t.pragmaRowIdx := heq ▸ rfl
  have hsregs : s.regs = regs := heq ▸ rfl
  rcases hs with ⟨row, hrow, hcols, hlen⟩ | ⟨hnone, hlen, insn, hinsn, hcols⟩ <;>
    rcases ht with ⟨row', hrow', hcols', hlen'⟩ | ⟨hnone', hlen', insn', hinsn', hcols'⟩
  · obtain rfl : row = row' := Option.some.inj (hrow.symm.trans (hpending ▸ hidx ▸ hrow'))
    exact currentRow_congr hcols hcols' fun i hi => regs_alike (hsregs ▸ hregs i) (by omega)
  · rw [hpending, hnone'] at hrow
    cases hrow
  · rw [← hpending, hnone] at hrow'
    cases hrow'
  · obtain rfl : insn = insn' := Option.some.inj (hinsn.symm.trans (hprog ▸ hpc ▸ hinsn'))
    refine currentRow_congr hcols hcols' fun i _ => regs_alike (hsregs ▸ hregs i) ?_
    rw [hlen, hlen', hprog]

end

end Vdbe

/-! ## Programs -/

/-- It counts no change, and it has no rows of a pragma. -/
def Insn.isRead (insn : Insn) : Bool := !insn.opcode.counts && decide (insn.opcode ≠ .pragma)

theorem Insn.isRead_iff {insn : Insn} : insn.isRead = true ↔ insn.opcode.counts = false ∧ insn.opcode ≠ .pragma := by
  unfold Insn.isRead
  rw [Bool.and_eq_true, Bool.not_eq_true', decide_eq_true_iff]

theorem Insn.isRead_of_value {insn : Insn} (h : insn.isValue = true) : insn.isRead = true ∧ insn.opcode ≠ .resultRow := by
  obtain ⟨op, p1, p2, p3, p4, p5⟩ := insn
  cases op <;> first | (cases h; done) | exact ⟨rfl, by simp⟩

theorem isRead_loopCode {start : Nat} {cursor : Int} {body : List Insn} (h : ∀ insn ∈ body, insn.isRead = true) :
    ∀ insn ∈ loopCode start cursor body, insn.isRead = true :=
  List.forall_mem_cons.mpr ⟨rfl, List.forall_mem_append.mpr ⟨h, List.forall_mem_singleton.mpr rfl⟩⟩

section
variable [Unicode] {schema : Schema} {prog : Program}

/-- The code of a `SELECT` with scans reads. -/
theorem ScanCode.isRead {select : Select} (c : ScanCode select schema) : ∀ insn ∈ c.code, insn.isRead = true := by
  have hbody : ∀ start, ∀ insn ∈ bodyAt start c.guards c.load c.emit, insn.isRead = true := by
    intro start
    unfold bodyAt bodyCode
    refine List.forall_mem_append.mpr ⟨fun insn hmem => ?_, List.forall_mem_append.mpr ⟨fun insn hmem => ?_, ?_⟩⟩
    · obtain ⟨g, hg, hmem⟩ := List.mem_flatMap.mp hmem
      rcases List.mem_append.mp hmem with hmem | hmem
      · exact (Insn.isRead_of_value (c.valued_guard hg insn hmem).1).1
      · exact List.mem_singleton.mp hmem ▸ rfl
    · exact (Insn.isRead_of_value (c.valued_load insn hmem).1).1
    · refine List.forall_mem_singleton.mpr ?_
      unfold emit emitInsn
      split <;> rfl
  have hscans : ∀ insn ∈ c.scans, insn.isRead = true := by
    unfold scans scansCode
    split
    · exact isRead_loopCode (isRead_loopCode (hbody _))
    · exact isRead_loopCode (hbody _)
  unfold code tailCode resultsCode
  refine List.forall_mem_append.mpr ⟨List.forall_mem_cons.mpr ⟨rfl, fun insn hmem => ?_⟩,
    List.forall_mem_append.mpr ⟨hscans, List.forall_mem_append.mpr ⟨?_, ?_⟩⟩⟩
  · obtain ⟨tb, -, rfl⟩ := List.mem_map.mp hmem
    rfl
  · unfold groupCode
    split
    · exact List.forall_mem_singleton.mpr rfl
    · exact List.forall_mem_nil _
  · refine List.forall_mem_append.mpr ⟨?_, List.forall_mem_append.mpr ⟨?_, List.forall_mem_singleton.mpr rfl⟩⟩
    · split
      · exact List.forall_mem_nil _
      · exact List.forall_mem_singleton.mpr rfl
    · split
      · simp [Insn.isRead, Opcode.counts]
      · exact List.forall_mem_nil _

omit [Unicode] in
theorem not_row_rows {name : String} {n : Nat} {rows : List (List Expr)} {codes : List (List Insn)}
    (h : List.Forall₂ (fun row code => compileRow name n row = .ok code) rows codes) :
    ∀ insn ∈ codes.flatten, insn.opcode ≠ .resultRow := by
  induction h with
  | nil => exact List.forall_mem_nil _
  | @cons row code rows codes hrow _ ih =>
    unfold compileRow at hrow
    split at hrow
    · cases hrow
    · cases hrow
      refine List.forall_mem_append.mpr ⟨List.forall_mem_append.mpr ⟨fun insn hmem => ?_, ?_⟩, ih⟩
      · exact (Insn.isRead_of_value (@valued_compileValues [] 2 row insn hmem).1).2
      · simp

omit [Unicode] in
theorem not_row_change {nReg : Nat} {name : String} {table : Schema.Table} {w : Option Expr} {change : List Insn}
    (h : ∀ insn ∈ change, insn.opcode ≠ .resultRow) :
    ∃ rest, (compileChange nReg name table w change).insns = openForWrite name ++ rest ∧
      ∀ insn ∈ rest, insn.opcode ≠ .resultRow := by
  refine ⟨_, compileChange_code nReg name table w change, ?_⟩
  refine List.forall_mem_append.mpr ⟨List.forall_mem_cons.mpr ⟨nofun, List.forall_mem_append.mpr ⟨?_, ?_⟩⟩, ?_⟩
  · unfold changeBody
    cases w with
    | none => exact h
    | some w =>
      refine List.forall_mem_append.mpr ⟨fun insn hmem => ?_, List.forall_mem_cons.mpr ⟨nofun, h⟩⟩
      exact (Insn.isRead_of_value (@valued_compileWhereExpr [0] w table 0 List.mem_cons_self 0 insn hmem).1).2
  · exact List.forall_mem_singleton.mpr nofun
  · exact List.forall_mem_singleton.mpr nofun

omit [Unicode] in
theorem not_row_updateRow (update : Update) (table : Schema.Table) :
    ∀ insn ∈ compileUpdateRow update table, insn.opcode ≠ .resultRow := by
  refine List.forall_mem_append.mpr ⟨List.forall_mem_append.mpr ⟨fun insn hmem => ?_, fun insn hmem => ?_⟩, by simp⟩
  · obtain ⟨j, -, rfl⟩ := List.mem_map.mp hmem
    exact nofun
  · exact (Insn.isRead_of_value (valued_compileUpdate_assignments update table insn hmem).1).2

/-- A program changes a table, and opens it first; or it counts nothing and returns no rows of its
own; or it is that of a `SELECT`. -/
theorem compile_kinds {sql : Parsed} (h : compile sql schema = .ok prog) :
    (∃ name rest, prog.insns = openForWrite name ++ rest ∧ ∀ insn ∈ rest, insn.opcode ≠ .resultRow) ∨
    (∀ insn ∈ prog.insns, insn.opcode.counts = false ∧ insn.opcode ≠ .resultRow) ∨
    (∀ insn ∈ prog.insns, insn.isRead = true) ∧
      (prog.span ≤ max prog.nReg 8 ∨ ∃ (select : Select) (c : ScanCode select schema), prog.insns = c.code) := by
  cases sql with
  | error e => cases h
  | ok stmt =>
    cases stmt with
    | select s =>
      refine .inr (.inr ?_)
      rcases select_cases h with ⟨cursor, name, rfl⟩ | ⟨c, hcode⟩
      · refine ⟨by simp [Insn.isRead, Opcode.counts], .inl (Program.span_le_iff.mpr ⟨Nat.le_refl _, ?_⟩)⟩
        simp [Insn.reach]
      · exact ⟨hcode ▸ c.isRead, .inr ⟨s, c, hcode⟩⟩
    | insert i =>
      have hinsert : compileInsert i schema = .ok prog := h
      unfold compileInsert at hinsert
      split at hinsert
      · cases hinsert
      · obtain ⟨_, -, hinsert⟩ := Res.bind_eq_ok.mp hinsert
        obtain ⟨rows, hrows, hinsert⟩ := Res.bind_eq_ok.mp hinsert
        cases hinsert
        refine .inl ⟨i.table, rows.flatten ++ [{ opcode := .halt }], List.append_assoc _ _ _, ?_⟩
        exact List.forall_mem_append.mpr ⟨not_row_rows (Res.mapM_eq_ok.mp hrows), List.forall_mem_singleton.mpr nofun⟩
    | update u =>
      have hupdate : compileUpdate u schema = .ok prog := h
      unfold compileUpdate at hupdate
      split at hupdate
      · cases hupdate
      · obtain ⟨_, -, hupdate⟩ := Res.bind_eq_ok.mp hupdate
        cases hupdate
        exact .inl ⟨_, not_row_change (not_row_updateRow u _)⟩
    | delete d =>
      have hdelete : compileDelete d schema = .ok prog := h
      unfold compileDelete at hdelete
      split at hdelete
      · cases hdelete
      · cases hdelete
        exact .inl ⟨_, not_row_change (List.forall_mem_singleton.mpr nofun)⟩
    | createTable | dropTable | pragma | begin | createIndex | commit | rollback =>
      cases h
      refine .inr (.inl ?_)
      simp [compileCreateTable, compileDropTable, compilePragma, compileBegin, compileCreateIndex, compileCommit,
        compileRollback, Opcode.counts]

end

namespace Vdbe

/-! ## Statements that have been used -/

/-- A statement of the program that has been stepped, in any databases, and reset. -/
inductive Used [Unicode] (prog : Program) : Vdbe → Prop
  | new : Used prog (.new prog)
  | step {v : Vdbe} (fuel : Nat) (db : Db) : Used prog v → Used prog (post (Vdbe.step fuel) ⟨v, db⟩).toVdbe
  | reset {v : Vdbe} : Used prog v → Used prog v.reset

section
variable [Unicode] {prog : Program} {v : Vdbe}

/-- What a new statement has and what steps and `reset` keep, whatever the database. -/
theorem Used.keeps {P : Nat → Prop} {I : Machine → Prop} (h : Used prog v) (hblind : Blind P I) (hnew : ∀ db, I (fresh prog db))
    (hstep : ∀ fuel, Keeps I (Vdbe.step fuel)) (hreset : ∀ v db, I ⟨v, db⟩ → I ⟨v.reset, db⟩) : ∀ db, I ⟨v, db⟩ := by
  have hany : ∀ (v : Vdbe) (db db' : Db), I ⟨v, db⟩ → I ⟨v, db'⟩ := fun v db db' =>
    hblind ⟨v, db⟩ ⟨v, db'⟩ rfl rfl rfl rfl rfl rfl (fun _ => id) (.inl rfl)
  induction h with
  | new => exact hnew
  | step fuel db _ ih => exact fun db' => hany _ _ db' ((hstep fuel).post (ih db))
  | reset _ ih => exact fun db => hreset _ db (ih db)

/-- It runs its program, and no register has been taken away. -/
theorem Used.sized (h : Used prog v) : v.program = prog ∧ max prog.nReg 8 ≤ v.regs.length := by
  have hblind : Blind (fun _ => True) fun s => s.program = prog ∧ max prog.nReg 8 ≤ s.regs.length := by
    intro s t hprog _ _ _ _ _ _ hregs hs
    refine ⟨hprog.trans hs.1, ?_⟩
    rcases hregs with heq | ⟨hlt, -⟩
    · exact heq ▸ hs.2
    · exact Nat.le_trans hs.2 (Nat.le_of_lt hlt)
  refine h.keeps hblind (fun db => ⟨rfl, ?_⟩) (fun fuel => ?_) (fun v db hv => ⟨hv.1, ?_⟩) oneRowDb
  · exact Nat.le_of_eq List.length_replicate.symm
  · refine step_keeps hblind (fun _ _ hs => hs) (fun _ _ _ hs => hs) fuel (fun _ insn _ _ => ?_) fun _ _ _ _ => trivial
    exact execute_keeps hblind fuel insn (fun _ _ => trivial) (fun _ => ⟨fun _ => trivial, fun _ _ hs => hs⟩)
      (fun _ _ _ _ _ _ _ => trivial) (fun _ _ _ hs => hs) (fun _ _ _ _ _ hs => hs) fun _ _ _ _ hs => hs
  · exact Nat.le_trans hv.2 (Nat.le_of_eq (List.length_map _).symm)

theorem Used.within (hread : ∀ insn ∈ prog.insns, insn.isRead = true) (h : Used prog v) (db : Db) : Within prog ⟨v, db⟩ := by
  have hspan : max prog.nReg 8 ≤ prog.span := (Program.span_le_iff.mp (Nat.le_refl _)).1
  refine h.keeps within_blind (fun db => ⟨rfl, rfl, ?_, nofun⟩) (step_within fun insn hmem => ?_)
    (fun v db hv => ⟨hv.runs, rfl, ?_, nofun⟩) db
  · exact Nat.le_trans (Nat.le_of_eq List.length_replicate) hspan
  · exact (Insn.isRead_iff.mp (hread insn hmem)).2
  · exact Nat.le_trans (Nat.le_of_eq (List.length_map _)) hv.regs

theorem Used.uncounted (hcounts : ∀ insn ∈ prog.insns, insn.opcode.counts = false) (h : Used prog v) :
    v.changes = 0 ∧ v.lastRowid = 0 := by
  have hblind : Blind (fun _ => True) fun s => s.program = prog ∧ s.changes = 0 ∧ s.lastRowid = 0 := by
    intro s t hprog _ _ _ _ hmarks _ _ hs
    exact ⟨hprog.trans hs.1, (congrArg (·.2.1) hmarks).trans hs.2.1, (congrArg (·.2.2) hmarks).trans hs.2.2⟩
  have hall := h.keeps hblind (fun db => ⟨rfl, rfl, rfl⟩) (fun fuel => ?_) (fun v db hv => hv) oneRowDb
  · exact hall.2
  · refine step_keeps hblind (fun _ _ hs => hs) (fun _ _ _ hs => hs) fuel (fun s insn hs hinsn => ?_) fun _ _ _ _ => trivial
    have hcount := hcounts insn (List.mem_of_getElem? (hs.1 ▸ hinsn))
    exact execute_keeps hblind fuel insn (fun _ _ => trivial) (fun _ => ⟨fun _ => trivial, fun _ _ hs => hs⟩)
      (fun _ _ _ _ _ _ _ => trivial) (fun _ _ _ hs => hs) (fun _ _ _ _ _ hs => hs)
      fun hyes => absurd (hyes.symm.trans hcount) (by decide)

/-- Behind `reset` a statement without counts is like a new one. -/
theorem Used.reset_alike (h : Used prog v) (hchanges : v.changes = 0) (hrowid : v.lastRowid = 0) (db : Db) :
    Like ⟨v.reset, db⟩ (fresh prog db) := by
  obtain ⟨rfl, -⟩ := h.sized
  obtain ⟨program, pc, regs, cursors, halted, haltCode, haltMessage, resultColumns, changes, lastRowid, pragmaPending,
    pragmaRowIdx, rowBuffer, bufferIdx⟩ := v
  obtain rfl : changes = 0 := hchanges
  obtain rfl : lastRowid = 0 := hrowid
  refine ⟨regs.map fun _ => .null, resultColumns, haltMessage, rfl, fun i => ?_⟩
  show regAt (regs.map fun _ => .null) i = regAt (List.replicate (max program.nReg 8) .null) i
  have hnull : ∀ l : List Value, (∀ v ∈ l, v = .null) → regAt l i = .null := by
    intro l hl
    unfold regAt
    cases hi : l[i]? with
    | none => rfl
    | some v => exact hl v (List.mem_of_getElem? hi)
  rw [hnull _ fun v hv => ?_, hnull _ fun v hv => List.eq_of_mem_replicate hv]
  obtain ⟨_, -, rfl⟩ := List.mem_map.mp hv
  rfl

/-! ## What a caller sees -/

/-- What a caller is told by a step: its result, the row, `changes` and `last_insert_rowid`. -/
structure Seen where
  result : Except (Fault SqlliteError) ResultCode
  row : Option (List Value)
  changes : Int
  lastRowid : Int

/-- The steps of a caller who goes on while there are rows, `n` steps at most. -/
def watch (fuel : Nat) : Nat → Machine → List Seen
  | 0, _ => []
  | n + 1, s =>
    let t := post (step fuel) s
    match outcome (step fuel) s with
    | .ok .row => ⟨.ok .row, some t.currentRow, t.changes, t.lastRowid⟩ :: watch fuel n t
    | result => [⟨result, none, t.changes, t.lastRowid⟩]

theorem watch_alike {J : Machine → Prop} (hJ : ∀ fuel s t, J s → step fuel s = .ok .row t → J t ∧ Shown t) (fuel n : Nat) :
    ∀ s t, Like s t → J s → J t → watch fuel n s = watch fuel n t := by
  induction n with
  | zero => exact fun _ _ _ _ _ => rfl
  | succ n ih =>
    intro s t hlike hs ht
    have hsteps := step_alike fuel hlike
    have hpost := hsteps.post
    have hcounts : (post (step fuel) s).changes = (post (step fuel) t).changes ∧
        (post (step fuel) s).lastRowid = (post (step fuel) t).lastRowid := by
      obtain ⟨regs, columns, msg, heq, -⟩ := hpost
      exact heq ▸ ⟨rfl, rfl⟩
    unfold watch
    dsimp only
    rw [hsteps.outcome, hcounts.1, hcounts.2]
    by_cases hrow : outcome (step fuel) t = .ok .row
    · have hrow' := hsteps.outcome.trans hrow
      obtain ⟨hJs, hshown⟩ := hJ fuel s _ hs (outcome_eq_post hrow')
      obtain ⟨hJt, hshown'⟩ := hJ fuel t _ ht (outcome_eq_post hrow)
      rw [hrow]
      dsimp only
      rw [currentRow_alike hpost hshown hshown', ih _ _ hpost hJs hJt]
    · split
      · next heq => exact absurd heq hrow
      · rfl

/-- A program without `ResultRow` returns the rows of pragmas only. -/
theorem quiet_row (hno : ∀ insn ∈ prog.insns, insn.opcode ≠ .resultRow) (fuel : Nat) (s t : Machine)
    (hs : s.program = prog ∧ s.halted = false) (h : step fuel s = .ok .row t) :
    (t.program = prog ∧ t.halted = false) ∧ Shown t := by
  have hkept : ∀ u w r, u.program = prog ∧ u.halted = false → round fuel u = .ok r w → r = none ∨ r = some .row →
      w.program = prog ∧ w.halted = false := fun u w r hu hround hgo =>
    ⟨(round_halted hround hgo).1.trans hu.1, (round_halted hround hgo).2.trans hu.2⟩
  rcases step_row hs.2 h with ⟨-, hshown, hprog, hrun⟩ | hloop
  · exact ⟨⟨hprog.trans hs.1, hrun⟩, .inl hshown⟩
  · obtain ⟨u, hu, hround⟩ := loop_answer (fun u w hu hround => hkept u w _ hu hround (.inl rfl)) hs hloop
    refine ⟨hkept u t _ hu hround (.inr rfl), ?_⟩
    rcases round_row_cases hround with ⟨insn, hinsn, hop, -⟩ | hshown
    · exact absurd hop (hno insn (List.mem_of_getElem? (hu.1 ▸ hinsn)))
    · exact .inl hshown

/-- A `SELECT` at work; `H` is what is known of the place it has come to. -/
structure Reading (prog : Program) (H : Machine → Prop) (s : Machine) : Prop where
  running : s.halted = false
  within : Within prog s
  least : max prog.nReg 8 ≤ s.regs.length
  place : H s

/-- Its rows have all registers that its program needs. -/
theorem reading_row {H : Machine → Prop} (hread : ∀ insn ∈ prog.insns, insn.isRead = true)
    (hround : ∀ fuel u w r, u.program = prog → H u → round fuel u = .ok r w → r = none ∨ r = some .row → H w)
    (hfull : ∀ u insn, H u → prog.insns[u.pc]? = some insn → insn.opcode = .resultRow →
      prog.span ≤ max prog.nReg 8 ∨ ∀ insn ∈ prog.insns, insn.reach ≤ u.regs.length)
    (fuel : Nat) (s t : Machine) (hs : Reading prog H s) (h : step fuel s = .ok .row t) : Reading prog H t ∧ Shown t := by
  have hkept : ∀ u w r, Reading prog H u → round fuel u = .ok r w → r = none ∨ r = some .row → Reading prog H w := by
    intro u w r hu hrun hgo
    obtain ⟨insn, -, hinsn, -, -⟩ := round_goes hrun hgo
    have hwithin := (round_within (fun insn hmem => (Insn.isRead_iff.mp (hread insn hmem)).2) fuel).post hu.within
    have hgrows := (round_grows fuel hinsn).2
    rw [post_ok hrun] at hwithin hgrows
    exact ⟨(round_halted hrun hgo).2.trans hu.running, hwithin, Nat.le_trans hu.least hgrows,
      hround fuel u w r hu.within.runs hu.place hrun hgo⟩
  rcases step_row hs.running h with ⟨hne, -⟩ | hloop
  · exact absurd hs.within.noRows hne
  · obtain ⟨u, hu, hrun⟩ := loop_answer (fun u w hu hrun => hkept u w _ hu hrun (.inl rfl)) hs hloop
    refine ⟨hkept u t _ hu hrun (.inr rfl), ?_⟩
    rcases round_row_cases hrun with ⟨insn, hinsn, hop, rfl⟩ | hshown
    · refine .inr ⟨hu.within.noRows, ?_, insn, hinsn, rfl⟩
      show u.regs.length = u.program.span
      rw [hu.within.runs] at hinsn ⊢
      refine Nat.le_antisymm hu.within.regs ?_
      rcases hfull u insn hu.place hinsn hop with hspan | hreach
      · exact Nat.le_trans hspan hu.least
      · exact Program.span_le_iff.mpr ⟨hu.least, hreach⟩
    · exact .inl hshown

/-- Without counts a caller sees the same as of a new statement. -/
theorem Used.rerun {schema : Schema} {sql : Parsed} (hcompile : compile sql schema = .ok prog) (h : Used prog v)
    (hchanges : v.changes = 0) (hrowid : v.lastRowid = 0) (db : Db) (fuel n : Nat) :
    watch fuel n ⟨v.reset, db⟩ = watch fuel n (fresh prog db) := by
  have hlike := h.reset_alike hchanges hrowid db
  have hquiet : (∀ insn ∈ prog.insns, insn.opcode ≠ .resultRow) → watch fuel n ⟨v.reset, db⟩ = watch fuel n (fresh prog db) :=
    fun hno => watch_alike (quiet_row hno) fuel n _ _ hlike ⟨h.sized.1, rfl⟩ ⟨rfl, rfl⟩
  have hselect : (∀ insn ∈ prog.insns, insn.isRead = true) → ∀ H : Machine → Prop,
      (∀ fuel u w r, u.program = prog → H u → round fuel u = .ok r w → r = none ∨ r = some .row → H w) →
      (∀ u insn, H u → prog.insns[u.pc]? = some insn → insn.opcode = .resultRow →
        prog.span ≤ max prog.nReg 8 ∨ ∀ insn ∈ prog.insns, insn.reach ≤ u.regs.length) →
      H ⟨v.reset, db⟩ → H (fresh prog db) → watch fuel n ⟨v.reset, db⟩ = watch fuel n (fresh prog db) :=
    fun hread H hround hfull hs ht => watch_alike (reading_row hread hround hfull) fuel n _ _ hlike
      ⟨rfl, h.reset.within hread db, h.reset.sized.2, hs⟩ ⟨rfl, Used.new.within hread db, Used.new.sized.2, ht⟩
  rcases compile_kinds hcompile with ⟨name, rest, hcode, hno⟩ | hno | ⟨hread, hspan | ⟨select, c, hcode⟩⟩
  · refine hquiet ?_
    rw [hcode]
    exact List.forall_mem_append.mpr ⟨by simp [openForWrite], hno⟩
  · exact hquiet fun insn hmem => (hno insn hmem).2
  · exact hselect hread (fun _ => True) (fun _ _ _ _ _ _ _ _ => trivial) (fun _ _ _ _ _ => .inl hspan) trivial trivial
  · obtain ⟨opening, body, hlaid⟩ := c.laid
    obtain ⟨first, last, tail, hrowed⟩ := c.rowed
    refine hselect hread (fun u => ∃ behind, Passed c.code u behind) ?_ ?_ ⟨[], .start rfl rfl⟩ ⟨[], .start rfl rfl⟩
    · rintro fuel u w r hprog ⟨behind, hp⟩ hrun hgo
      exact ⟨_, (hp.round hlaid hrowed (hprog ▸ hcode) hrun hgo).2⟩
    · rintro u insn ⟨behind, hp⟩ hinsn hop
      exact .inr (hcode ▸ hrowed.full hp (hcode ▸ hinsn) hop)

/-! ## Counts that are left -/

/-- Where there are no tables, a change of one ends before anything is counted. -/
theorem step_noTable {name : String} {rest : List Insn} (hprog : v.program.insns = openForWrite name ++ rest) (pager : Pager)
    (fuel : Nat) : ∃ e t, step (fuel + 3) ⟨v.reset, ⟨pager, .new⟩⟩ = .error e t ∧ t.changes = v.changes ∧
      t.lastRowid = v.lastRowid := by
  have hat : ∀ (s : Machine) (n : Nat) (insn : Insn), s.program = v.program → s.pc = n → (openForWrite name)[n]? = some insn →
      s.program.insns[s.pc]? = some insn := by
    intro s n insn hs hpc hinsn
    rw [hs, hpc, hprog, List.getElem?_append_left (List.getElem?_eq_some_iff.mp hinsn).1]
    exact hinsn
  obtain ⟨s, hs⟩ : ∃ s : Machine, s = ⟨v.reset, ⟨pager, .new⟩⟩ := ⟨_, rfl⟩
  have hstep : step (fuel + 3) s = loop (round (fuel + 3)) (fuel + 3) s := by
    unfold step
    rw [bind_ok (get_apply s), hs]
    rfl
  obtain ⟨s1, h1, hprog1, hpc1, hmarks1, hschema1⟩ : ∃ s1, round (fuel + 3) s = .ok none s1 ∧ s1.program = v.program ∧
      s1.pc = 1 ∧ (s1.changes = v.changes ∧ s1.lastRowid = v.lastRowid) ∧ s1.schema = .new := by
    rw [round_eq _ (hat s 0 _ (hs ▸ rfl) (hs ▸ rfl) rfl)]
    exact ⟨{ s with pc := s.pc + 1 }, rfl, hs ▸ rfl, hs ▸ rfl, hs ▸ ⟨rfl, rfl⟩, hs ▸ rfl⟩
  obtain ⟨s2, h2, hprog2, hpc2, hmarks2, hschema2⟩ : ∃ s2, round (fuel + 3) s1 = .ok none s2 ∧ s2.program = v.program ∧
      s2.pc = 2 ∧ (s2.changes = v.changes ∧ s2.lastRowid = v.lastRowid) ∧ s2.schema = .new := by
    rw [round_eq _ (hat s1 1 _ hprog1 hpc1 rfl)]
    exact ⟨_, rfl, hprog1, congrArg Nat.succ hpc1, hmarks1, hschema1⟩
  have h3 : ∃ e, round (fuel + 3) s2 = .error e { s2 with pc := s2.pc + 1 } := by
    rw [round_eq _ (hat s2 2 _ hprog2 hpc2 rfl)]
    have hopen : ∃ e, openTable 0 (.string name) { s2 with pc := s2.pc + 1 } = .error e { s2 with pc := s2.pc + 1 } := by
      unfold openTable
      dsimp only
      rw [bind_ok (get_apply _), show ({ s2 with pc := s2.pc + 1 } : Machine).schema = .new from hschema2]
      exact ⟨_, rfl⟩
    obtain ⟨e, he⟩ := hopen
    exact ⟨e, bind_error he _⟩
  obtain ⟨e, h3⟩ := h3
  refine ⟨e, { s2 with pc := s2.pc + 1 }, ?_, hmarks2⟩
  rw [← hs, hstep, loop_succ, h1]
  dsimp only
  rw [loop_succ, h2]
  dsimp only
  rw [loop_succ, h3]

omit [Unicode] in
theorem reset_new (prog : Program) : (Vdbe.new prog).reset = .new prog := by
  unfold Vdbe.reset Vdbe.new
  rw [List.map_replicate]

/-- Counts that are left are seen, where a program counts. -/
theorem Used.counts_seen {schema : Schema} {sql : Parsed} (hcompile : compile sql schema = .ok prog) (h : Used prog v)
    (hsame : ∀ (db : Db) n, ∃ N, ∀ fuel ≥ N, watch fuel n ⟨v.reset, db⟩ = watch fuel n (fresh prog db)) :
    v.changes = 0 ∧ v.lastRowid = 0 := by
  rcases compile_kinds hcompile with ⟨name, rest, hcode, -⟩ | hno | ⟨hread, -⟩
  · obtain ⟨N, hN⟩ := hsame ⟨oneRowDb.pager, .new⟩ 1
    have hsame := hN (N + 3) (Nat.le_add_right N 3)
    obtain ⟨e, t, hrun, hchanges, hrowid⟩ := step_noTable (v := v) (h.sized.1.symm ▸ hcode) oneRowDb.pager N
    obtain ⟨e', t', hrun', hchanges', hrowid'⟩ := step_noTable (v := .new prog) hcode oneRowDb.pager N
    rw [reset_new] at hrun'
    have hseen : ∀ {s u : Machine} {f : Fault SqlliteError}, Vdbe.step (N + 3) s = .error f u →
        watch (N + 3) 1 s = [⟨.error f, none, u.changes, u.lastRowid⟩] := by
      intro s u f hrun
      unfold watch
      rw [outcome, hrun, post_error hrun]
    rw [hseen hrun, fresh, hseen hrun'] at hsame
    obtain ⟨hseen, -⟩ := List.cons.inj hsame
    exact ⟨hchanges.symm.trans ((congrArg Seen.changes hseen).trans hchanges'),
      hrowid.symm.trans ((congrArg Seen.lastRowid hseen).trans hrowid')⟩
  · exact h.uncounted fun insn hmem => (hno insn hmem).1
  · exact h.uncounted fun insn hmem => (Insn.isRead_iff.mp (hread insn hmem)).1

end

/-- `DELETE FROM t` on a table of one row. -/
def deleteAll : Program := compileChange 0 "t" tableA none [{ opcode := .delete }]

/-- It has been run to its end. -/
def deletedAll [Unicode] : Machine := post (step 20) (fresh deleteAll oneRowDb)

theorem compile_deleteAll [Unicode] (ht : oneRowDb.schema.table "t" = some tableA) :
    compile (.ok (.delete { table := "t", whereClause := none })) oneRowDb.schema = .ok deleteAll := by
  show compileDelete _ _ = _
  unfold compileDelete
  rw [ht]
  rfl

end Vdbe

end Sqllite
