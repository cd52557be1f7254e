import Sqllite.Lib.Alike
import Sqllite.L4Vdbe.Exec

/-!
# What a run can tell from another one

A statement reads its registers by their values: it cannot tell how many there are, and it
does not read the columns of its last row or the message it halted with. Machines that
differ there only (`Like`) do the same in every step.

* `step_alike`: two like machines step alike.
-/
namespace Sqllite
open Lib Lib.Run Lib.Machine

namespace Vdbe

/-- The machines differ in the number of their registers, in the columns of the last row and
in the message of the halt only. -/
def Like (s t : Machine) : Prop :=
  ∃ regs columns msg, s = { t with regs := regs, resultColumns := columns, haltMessage := msg } ∧
    ∀ i, regAt regs i = regAt t.regs i

section
variable {α : Type} {s t : Machine}

theorem Like.refl (s : Machine) : Like s s := ⟨s.regs, s.resultColumns, s.haltMessage, rfl, fun _ => rfl⟩

theorem Like.getReg (h : Like s t) (idx : Int) : getReg s idx = getReg t idx := by
  obtain ⟨regs, columns, msg, rfl, hregs⟩ := h
  unfold Vdbe.getReg
  split
  · rfl
  · exact hregs _

theorem Like.lookup (h : Like s t) (id : Int) : s.cursors.lookup id = t.cursors.lookup id := by
  obtain ⟨regs, columns, msg, rfl, -⟩ := h
  rfl

/-- A change that does not concern the difference. -/
theorem modify_alike {f : Machine → Machine} (h : Like s t)
    (hf : ∀ u regs columns msg, f { u with regs := regs, resultColumns := columns, haltMessage := msg } =
      { f u with regs := regs, resultColumns := columns, haltMessage := msg })
    (hregs : ∀ u, (f u).regs = u.regs) : Matches Like ((modify f : VdbeM PUnit) s) ((modify f : VdbeM PUnit) t) := by
  obtain ⟨regs, columns, msg, rfl, hsame⟩ := h
  refine .modify ⟨regs, columns, msg, hf t regs columns msg, fun i => ?_⟩
  rw [hregs]
  exact hsame i

theorem setReg_alike (h : Like s t) (idx : Int) (v : Value) : Matches Like (setReg idx v s) (setReg idx v t) := by
  unfold setReg
  split
  · exact .lift h
  · obtain ⟨regs, columns, msg, rfl, hregs⟩ := h
    refine .modify ⟨putReg regs idx.toNat v, columns, msg, rfl, fun i => ?_⟩
    show regAt (putReg regs _ v) i = regAt (putReg t.regs _ v) i
    rw [regAt_putReg, regAt_putReg, hregs]

theorem answer_alike (h : Like s t) (idx : Int) (v : Value) : Matches Like (answer idx v s) (answer idx v t) :=
  (setReg_alike h idx v).bind fun _ _ _ h' => .pure h'

theorem jump_alike (h : Like s t) (p2 : Int) : Matches Like (jump p2 s) (jump p2 t) :=
  modify_alike h (fun _ _ _ _ => rfl) fun _ => rfl

theorem jumpIf_alike (h : Like s t) (c : Bool) (p2 : Int) : Matches Like (jumpIf c p2 s) (jumpIf c p2 t) := by
  unfold jumpIf
  cases c
  · exact .bind (.pure h) fun _ _ _ h' => .pure h'
  · exact (jump_alike h p2).bind fun _ _ _ h' => .pure h'

theorem onPager_alike (h : Like s t) (m : PagerM α) : Matches Like (onPager m s) (onPager m t) := by
  obtain ⟨regs, columns, msg, rfl, hregs⟩ := h
  exact .zoom m rfl fun u => ⟨regs, columns, msg, rfl, hregs⟩

theorem onDb_alike (h : Like s t) (m : DbM α) : Matches Like (onDb m s) (onDb m t) := by
  obtain ⟨regs, columns, msg, rfl, hregs⟩ := h
  exact .zoom m rfl fun u => ⟨regs, columns, msg, rfl, hregs⟩

theorem onCursor_alike (h : Like s t) (id : Int) (cs : CursorState) (m : CursorM α) :
    Matches Like (onCursor id cs m s) (onCursor id cs m t) := by
  obtain ⟨regs, columns, msg, rfl, hregs⟩ := h
  exact .zoom m rfl fun u => ⟨regs, columns, msg, rfl, hregs⟩

theorem onBtree_alike (h : Like s t) (id : Int) (cs : CursorState) (m : BtreeM α) :
    Matches Like (onBtree id cs m s) (onBtree id cs m t) := by
  obtain ⟨regs, columns, msg, rfl, hregs⟩ := h
  exact .zoom m rfl fun u => ⟨regs, columns, msg, rfl, hregs⟩

theorem withCursor_alike (h : Like s t) {id : Int} {f f' : CursorState → VdbeM StepResult}
    (hf : ∀ cs, Matches Like (f cs s) (f' cs t)) : Matches Like (withCursor id f s) (withCursor id f' t) := by
  refine .get ?_
  rw [h.lookup]
  cases t.cursors.lookup id with
  | none => exact .pure h
  | some cs => exact hf cs

theorem setRegsFrom_alike : ∀ (row : List Value) (i : Nat) {s t : Machine}, Like s t →
    Matches Like (setRegsFrom i row s) (setRegsFrom i row t)
  | [], _, _, _, h => .pure h
  | v :: row, i, _, _, h => (setReg_alike h i v).bind fun _ _ _ h' => setRegsFrom_alike row (i + 1) h'

theorem emitPragmaRow_alike (h : Like s t) (idx : Nat) : Matches Like (emitPragmaRow idx s) (emitPragmaRow idx t) := by
  refine .get ?_
  have hpending : s.pragmaPending = t.pragmaPending := by
    obtain ⟨regs, columns, msg, rfl, -⟩ := h
    rfl
  rw [hpending]
  cases t.pragmaPending[idx]? with
  | none => exact .lift h
  | some row =>
    refine (setRegsFrom_alike row 0 h).bind fun _ s' t' h' => .modify ?_
    obtain ⟨regs, columns, msg, rfl, hregs⟩ := h'
    exact ⟨regs, List.range row.length, msg, rfl, hregs⟩

theorem countChange_alike (h : Like s t) : Matches Like (countChange s) (countChange t) := by
  refine .get ?_
  obtain ⟨regs, columns, msg, rfl, hregs⟩ := h
  dsimp only
  split
  · exact .set ⟨regs, columns, msg, rfl, hregs⟩
  · exact .lift ⟨regs, columns, msg, rfl, hregs⟩

theorem bufferNext_alike (h : Like s t) (p2 : Int) : Matches Like (bufferNext p2 s) (bufferNext p2 t) := by
  refine .get ?_
  have hrow : s.rowBuffer[s.bufferIdx]? = t.rowBuffer[t.bufferIdx]? := by
    obtain ⟨regs, columns, msg, rfl, -⟩ := h
    rfl
  rw [hrow]
  cases t.rowBuffer[t.bufferIdx]? with
  | none => exact (jump_alike h p2).bind fun _ _ _ h' => .pure h'
  | some row =>
    refine (setRegsFrom_alike row 0 h).bind fun _ s' t' h' => ?_
    exact Matches.bind (modify_alike h' (fun _ _ _ _ => rfl) fun _ => rfl) fun _ _ _ h'' => .pure h''

theorem allocateRowid_alike (h : Like s t) (fuel : Nat) (id : Int) :
    Matches Like (allocateRowid fuel id s) (allocateRowid fuel id t) := by
  refine .get ?_
  rw [h.lookup]
  cases t.cursors.lookup id with
  | none => exact .pure h
  | some cs => exact onDb_alike h _

theorem executeDelete_alike (h : Like s t) (id : Int) (cs : CursorState) :
    Matches Like (executeDelete id cs s) (executeDelete id cs t) := by
  unfold executeDelete
  cases cs.cursor.currentKey with
  | none => exact .pure h
  | some rowid =>
    exact (onBtree_alike h _ _ _).bind fun _ _ _ h' => (countChange_alike h').bind fun _ _ _ h'' => .pure h''

theorem insertRowid_alike (h : Like s t) (insn : Insn) : insertRowid s insn = insertRowid t insn := by
  unfold insertRowid
  rw [h.getReg]

theorem insertRecord_alike (h : Like s t) (insn : Insn) : insertRecord s insn = insertRecord t insn := by
  unfold insertRecord
  rw [h.getReg]

theorem recordValues_alike (h : Like s t) (insn : Insn) : recordValues s insn = recordValues t insn := by
  unfold recordValues
  simp only [h.getReg]

section
variable [Unicode]

theorem openTable_alike (h : Like s t) (id : Int) (p4 : InsnP4) :
    Matches Like (openTable id p4 s) (openTable id p4 t) := by
  unfold openTable
  split
  · refine .get ?_
    have hschema : s.schema = t.schema := by
      obtain ⟨regs, columns, msg, rfl, -⟩ := h
      rfl
    rw [hschema]
    obtain ⟨regs, columns, msg, rfl, hregs⟩ := h
    cases t.schema.table _ with
    | none => exact .lift ⟨regs, columns, msg, rfl, hregs⟩
    | some table => exact Matches.bind (.set ⟨regs, columns, msg, rfl, hregs⟩) fun _ _ _ h' => .pure h'
  · exact .lift h

theorem executeInsert_alike (h : Like s t) (fuel : Nat) (insn : Insn) (cs : CursorState) :
    Matches Like (executeInsert fuel insn cs s) (executeInsert fuel insn cs t) := by
  refine .get ?_
  rw [insertRowid_alike h, insertRecord_alike h]
  refine Matches.bind (.lift h) fun _ _ _ h => Matches.bind (.lift h) fun _ _ _ h => ?_
  refine (onBtree_alike h _ _ _).bind fun _ _ _ h => (onDb_alike h _).bind fun _ _ _ h => ?_
  refine (countChange_alike h).bind fun _ _ _ h => ?_
  exact Matches.bind (modify_alike h (fun _ _ _ _ => rfl) fun _ => rfl) fun _ _ _ h => .pure h

theorem executePragmaInsn_alike (h : Like s t) (p4 : InsnP4) :
    Matches Like (executePragmaInsn p4 s) (executePragmaInsn p4 t) := by
  unfold executePragmaInsn
  split
  · refine .get ?_
    have hschema : s.schema = t.schema := by
      obtain ⟨regs, columns, msg, rfl, -⟩ := h
      rfl
    rw [hschema]
    refine (onPager_alike h _).bind fun rows _ _ h => ?_
    refine Matches.bind (modify_alike h (fun _ _ _ _ => rfl) fun _ => rfl) fun _ _ _ h => ?_
    split
    · exact .pure h
    · refine (emitPragmaRow_alike h 0).bind fun _ _ _ h => ?_
      exact Matches.bind (modify_alike h (fun _ _ _ _ => rfl) fun _ => rfl) fun _ _ _ h => .pure h
  · exact .pure h

/-- Like machines execute an instruction alike. -/
theorem execute_alike (h : Like s t) (fuel : Nat) (insn : Insn) :
    Matches Like (execute fuel insn s) (execute fuel insn t) := by
  obtain ⟨op, p1, p2, p3, p4, p5⟩ := insn
  refine .get ?_
  cases op with
  | init | blob | closer | createBtree | destroy | dropTable | setCookie | halt => exact .pure h
  | goto => exact jumpIf_alike h _ _
  | isNull | notNull | «if» | ifNot =>
    dsimp only
    rw [h.getReg]
    exact jumpIf_alike h _ _
  | integer | null => exact answer_alike h _ _
  | move | copy | eq | ne | lt | le | gt | ge | and | or | not | concat =>
    dsimp only
    simp only [h.getReg]
    exact answer_alike h _ _
  | int64 | real | string =>
    cases p4 <;> first | exact answer_alike h _ _ | exact .pure h
  | resultRow =>
    obtain ⟨regs, columns, msg, rfl, hregs⟩ := h
    exact Matches.bind (.set ⟨regs, List.range p1.toNat, msg, rfl, hregs⟩) fun _ _ _ h => .pure h
  | rowData =>
    dsimp only
    simp only [h.getReg]
    obtain ⟨regs, columns, msg, rfl, hregs⟩ := h
    exact Matches.bind (.set ⟨regs, columns, msg, rfl, hregs⟩) fun _ _ _ h => .pure h
  | bufferRewind =>
    obtain ⟨regs, columns, msg, rfl, hregs⟩ := h
    exact Matches.bind (.set ⟨regs, columns, msg, rfl, hregs⟩) fun _ _ _ h => jumpIf_alike h _ _
  | groupBy =>
    obtain ⟨regs, columns, msg, rfl, hregs⟩ := h
    cases p4 with
    | groupBy spec => exact Matches.bind (.set ⟨regs, columns, msg, rfl, hregs⟩) fun _ _ _ h => .pure h
    | _ => exact .pure ⟨regs, columns, msg, rfl, hregs⟩
  | sort =>
    obtain ⟨regs, columns, msg, rfl, hregs⟩ := h
    cases p4 with
    | sortKeys keys => exact Matches.bind (.set ⟨regs, columns, msg, rfl, hregs⟩) fun _ _ _ h => .pure h
    | _ => exact .pure ⟨regs, columns, msg, rfl, hregs⟩
  | transaction => exact (onPager_alike h _).bind fun _ _ _ h => .pure h
  | openRead | openWrite => exact openTable_alike h _ _
  | rewind | last | sorterNext =>
    exact withCursor_alike h fun cs => (onCursor_alike h _ _ _).bind fun _ _ _ h => jumpIf_alike h _ _
  | seekRowid =>
    dsimp only
    rw [h.getReg]
    exact withCursor_alike h fun cs => (onCursor_alike h _ _ _).bind fun _ _ _ h => jumpIf_alike h _ _
  | column =>
    refine withCursor_alike h fun cs => ?_
    have hpager : s.pager = t.pager := by
      obtain ⟨regs, columns, msg, rfl, -⟩ := h
      rfl
    rw [hpager]
    exact Matches.bind (.lift h) fun _ _ _ h => answer_alike h _ _
  | rowid =>
    refine withCursor_alike h fun cs => ?_
    cases cs.cursor.currentKey with
    | none => exact .pure h
    | some id => exact answer_alike h _ _
  | makeRecord =>
    dsimp only
    rw [recordValues_alike h]
    exact Matches.bind (.lift h) fun _ _ _ h => answer_alike h _ _
  | remainder =>
    dsimp only
    simp only [h.getReg]
    exact Matches.bind (.lift h) fun _ _ _ h => answer_alike h _ _
  | newRowid =>
    refine (allocateRowid_alike h _ _).bind fun _ _ _ h => (setReg_alike h _ _).bind fun _ _ _ h => ?_
    exact Matches.bind (modify_alike h (fun _ _ _ _ => rfl) fun _ => rfl) fun _ _ _ h => .pure h
  | insert | insertInt => exact withCursor_alike h fun cs => executeInsert_alike h _ _ _
  | delete => exact withCursor_alike h fun cs => executeDelete_alike h _ _
  | add | subtract | multiply | divide =>
    refine .get ?_
    rw [h.getReg, h.getReg]
    exact answer_alike h _ _
  | notFound | found => exact withCursor_alike h fun cs => jumpIf_alike h _ _
  | count => exact withCursor_alike h fun cs => (onDb_alike h _).bind fun _ _ _ h => answer_alike h _ _
  | pragma => exact executePragmaInsn_alike h _
  | bufferNext => exact bufferNext_alike h _

/-- Like machines make a round alike. -/
theorem round_alike (fuel : Nat) (s t : Machine) (h : Like s t) : Matches Like (round fuel s) (round fuel t) := by
  refine .get ?_
  have hinsn : s.program.insns[s.pc]? = t.program.insns[t.pc]? := by
    obtain ⟨regs, columns, msg, rfl, -⟩ := h
    rfl
  rw [hinsn]
  cases t.program.insns[t.pc]? with
  | none => exact .pure h
  | some insn =>
    have hpc : Like { s with pc := s.pc + 1 } { t with pc := t.pc + 1 } := by
      obtain ⟨regs, columns, msg, rfl, hregs⟩ := h
      exact ⟨regs, columns, msg, rfl, hregs⟩
    refine Matches.bind (.set hpc) fun _ _ _ h => (execute_alike h fuel insn).bind fun result _ _ h => ?_
    cases result with
    | «continue» | row | done => exact .pure h
    | halt code msg =>
      obtain ⟨regs, columns, msg', rfl, hregs⟩ := h
      refine Matches.bind (.modify ⟨regs, columns, msg, rfl, hregs⟩) fun _ _ _ h => ?_
      split
      · exact .pure h
      · exact .lift h

/-- Like machines step alike. -/
theorem step_alike (fuel : Nat) (h : Like s t) : Matches Like (step fuel s) (step fuel t) := by
  refine .get ?_
  have hsame : s.halted = t.halted ∧ s.haltCode = t.haltCode ∧ s.pragmaRowIdx = t.pragmaRowIdx ∧
      s.pragmaPending = t.pragmaPending := by
    obtain ⟨regs, columns, msg, rfl, -⟩ := h
    exact ⟨rfl, rfl, rfl, rfl⟩
  rw [hsame.1, hsame.2.1, hsame.2.2.1, hsame.2.2.2]
  split
  · exact .pure h
  · split
    · refine (emitPragmaRow_alike h _).bind fun _ _ _ h => ?_
      exact Matches.bind (modify_alike h (fun _ _ _ _ => rfl) fun _ => rfl) fun _ _ _ h => .pure h
    · exact Matches.loop (round_alike fuel) fuel s t h

end

end

end Vdbe

end Sqllite
