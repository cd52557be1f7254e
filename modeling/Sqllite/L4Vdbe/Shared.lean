import Sqllite.L3Sql.CatalogKeeps
import Sqllite.L4Vdbe.Overflow

/-!
# What an instruction does to what it shares

An instruction comes to the pager and the catalog by few ways: it begins a transaction, opens
a table, moves or reads a cursor, inserts, deletes, or answers a pragma (`Acts`). What these
keep, the instruction keeps, and so does every step of the statement.

* `execute_acts`, `step_acts`: an instruction, a step.
-/
namespace Sqllite
open Lib Lib.Run Lib.Machine

/-- A call of a cursor that only reads pages. -/
def BtreeCursor.Reading {α : Type} (m : CursorM α) : Prop :=
  ∀ J : Btree → Prop, OnReads J → Keeps (fun c : BtreeCursor => J c.btree) m

namespace BtreeCursor

theorem reading_first : Reading first := fun _ hJ => first_keeps hJ

theorem reading_next : Reading next := fun _ hJ => next_keeps hJ

theorem reading_seek (key : Int) : Reading (seek key) := fun _ hJ => seek_keeps hJ key

theorem reading_scan {α : Type} (f : α → BtreeCursor → Result α) (fuel : Nat) (a : α) : Reading (scan f fuel a) :=
  fun _ hJ => scan_keeps hJ f fuel a

theorem reading_nextRowid (fuel : Nat) : Reading (nextRowid fuel) := fun _ hJ => nextRowid_keeps hJ fuel

end BtreeCursor

namespace Vdbe

/-- It depends on the pager, the catalog and the cursors. -/
def Local (I : Machine → Prop) : Prop :=
  ∀ s t : Machine, t.toDb = s.toDb → t.cursors = s.cursors → I s → I t

/-- The statement has this cursor, and `I` holds. -/
def Holding (I : Machine → Prop) (id : Int) (cs : CursorState) (s : Machine) : Prop :=
  I s ∧ s.cursors.lookup id = some cs

/-- What an instruction does with the pager, the catalog and the cursors keeps `I`. -/
structure Acts [Unicode] (I : Machine → Prop) (fuel : Nat) (insn : Insn) : Prop where
  begins : insn.opcode = .transaction → Keeps I (onPager Pager.begin)
  opens : insn.opens = some insn.p1 → Keeps I (openTable insn.p1 insn.p4)
  moves : ∀ cs (m : CursorM Bool), BtreeCursor.Reading m →
    Hoare (Holding I insn.p1 cs) (onCursor insn.p1 cs m) (fun _ => I) I
  scans : ∀ root (m : CursorM Int), BtreeCursor.Reading m → Keeps I (onDb (Db.onCursor (tableCursor root) m))
  inserts : insn.opcode = .insert ∨ insn.opcode = .insertInt → ∀ cs,
    Hoare (Holding I insn.p2 cs) (executeInsert fuel insn cs) (fun _ => I) I
  deletes : insn.opcode = .delete → ∀ cs, Hoare (Holding I insn.p2 cs) (executeDelete insn.p2 cs) (fun _ => I) I
  pragma : insn.opcode = .pragma → Keeps I (executePragmaInsn insn.p4)

section
variable {I : Machine → Prop} (h : Local I)
include h

theorem Local.modify {f : Machine → Machine} (hdb : ∀ s, (f s).toDb = s.toDb) (hcursors : ∀ s, (f s).cursors = s.cursors) :
    Keeps I (modify f : VdbeM PUnit) := .modify fun s hs => h s (f s) (hdb s) (hcursors s) hs

theorem Local.setReg (idx : Int) (v : Value) : Keeps I (setReg idx v) := by
  unfold Vdbe.setReg
  split
  · exact .lift
  · exact h.modify (fun _ => rfl) fun _ => rfl

theorem Local.answer (idx : Int) (v : Value) : Keeps I (answer idx v) := (h.setReg idx v).bind fun _ => .pure

theorem Local.jumpIf (c : Bool) (p2 : Int) : Keeps I (jumpIf c p2) :=
  jumpIf_keeps c p2 fun s hs => h s _ rfl rfl hs

theorem Local.setRegsFrom : ∀ (i : Nat) (row : List Value), Keeps I (setRegsFrom i row)
  | _, [] => .pure
  | i, v :: row => (h.setReg _ v).bind fun _ => Local.setRegsFrom (i + 1) row

theorem Local.emitPragmaRow (idx : Nat) : Keeps I (emitPragmaRow idx) := by
  refine get_keeps fun s _ => ?_
  cases s.pragmaPending[idx]? with
  | none => exact .lift
  | some row => exact (h.setRegsFrom 0 row).bind fun _ => h.modify (fun _ => rfl) fun _ => rfl

theorem Local.bufferNext (p2 : Int) : Keeps I (bufferNext p2) := by
  refine get_keeps fun s _ => ?_
  cases s.rowBuffer[s.bufferIdx]? with
  | none => exact Keeps.bind (h.modify (fun _ => rfl) fun _ => rfl) fun _ => .pure
  | some row =>
    exact (h.setRegsFrom 0 row).bind fun _ => Keeps.bind (h.modify (fun _ => rfl) fun _ => rfl) fun _ => .pure

omit h in
/-- What is done with a cursor that is there. -/
theorem withCursor_holds {id : Int} {f : CursorState → VdbeM StepResult}
    (hf : ∀ cs, Hoare (Holding I id cs) (f cs) (fun _ => I) I) : Keeps I (withCursor id f) := by
  intro s hs
  unfold withCursor
  rw [bind_ok (get_apply s)]
  cases hcs : s.cursors.lookup id with
  | none => exact hs
  | some cs => exact hf cs s ⟨hs, hcs⟩

omit h in
theorem Holding.keeps {id : Int} {cs : CursorState} {m : VdbeM StepResult} (hm : Keeps I m) :
    Hoare (Holding I id cs) m (fun _ => I) I :=
  hm.weaken (fun _ hs => hs.1) (fun _ _ hs => hs) fun _ hs => hs

variable [Unicode] {fuel : Nat} {insn : Insn}

theorem execute_acts (ha : Acts I fuel insn) : Keeps I (execute fuel insn) := by
  obtain ⟨op, p1, p2, p3, p4, p5⟩ := insn
  refine get_keeps fun s hs => ?_
  have hmove : ∀ (m : CursorM Bool) (c : Bool → Bool), BtreeCursor.Reading m →
      Keeps I (withCursor p1 fun cs => do
        let found ← onCursor p1 cs m
        Vdbe.jumpIf (c found) p2) := fun m c hm =>
    withCursor_holds fun cs => Hoare.bind (ha.moves cs m hm) fun _ => h.jumpIf _ _
  cases op with
  | init | blob | closer | createBtree | destroy | dropTable | setCookie | halt => exact .pure
  | goto | isNull | notNull | «if» | ifNot => exact h.jumpIf _ _
  | integer | null | move | copy | eq | ne | lt | le | gt | ge | and | or | not | concat => exact h.answer _ _
  | int64 | real | string => cases p4 <;> first | exact h.answer _ _ | exact .pure
  | resultRow | rowData => exact Keeps.bind (set_keeps (h s _ rfl rfl hs)) fun _ => .pure
  | bufferRewind => exact Keeps.bind (set_keeps (h s _ rfl rfl hs)) fun _ => h.jumpIf _ _
  | groupBy | sort =>
    cases p4 <;> first | exact Keeps.bind (set_keeps (h s _ rfl rfl hs)) fun _ => .pure | exact .pure
  | transaction => exact (ha.begins rfl).bind fun _ => .pure
  | openRead | openWrite => exact ha.opens rfl
  | rewind => exact hmove _ _ BtreeCursor.reading_first
  | last | sorterNext => exact hmove _ id BtreeCursor.reading_next
  | seekRowid => exact hmove _ _ (BtreeCursor.reading_seek _)
  | column => exact withCursor_keeps fun cs => Keeps.lift.bind fun _ => h.answer _ _
  | rowid =>
    refine withCursor_keeps fun cs => ?_
    cases cs.cursor.currentKey with
    | none => exact .pure
    | some id => exact h.answer _ _
  | makeRecord | remainder => exact Keeps.lift.bind fun _ => h.answer _ _
  | newRowid =>
    have hrowid : Keeps I (allocateRowid fuel p2) := get_keeps fun t _ => by
      cases t.cursors.lookup p2 with
      | none => exact .pure
      | some cs => exact ha.scans _ _ (BtreeCursor.reading_nextRowid fuel)
    exact hrowid.bind fun _ => (h.setReg _ _).bind fun _ => Keeps.bind (h.modify (fun _ => rfl) fun _ => rfl) fun _ => .pure
  | insert => exact withCursor_holds (ha.inserts (.inl rfl))
  | insertInt => exact withCursor_holds (ha.inserts (.inr rfl))
  | delete => exact withCursor_holds (ha.deletes rfl)
  | add | subtract | multiply | divide => exact get_keeps fun _ _ => h.answer _ _
  | notFound | found => exact withCursor_keeps fun cs => h.jumpIf _ _
  | count => exact withCursor_keeps fun cs => (ha.scans _ _ (BtreeCursor.reading_scan _ _ _)).bind fun _ => h.answer _ _
  | pragma => exact ha.pragma rfl
  | bufferNext => exact h.bufferNext _

/-- What the instructions of a program do keeps `I`, so a step does. -/
theorem step_acts {prog : Program} (ha : ∀ insn ∈ prog.insns, ∀ fuel, Acts I fuel insn) (fuel : Nat) :
    Keeps (fun s => I s ∧ Runs prog s) (step fuel) := by
  have hround : Keeps (fun s => I s ∧ Runs prog s) (Vdbe.round fuel) := by
    refine round_keeps (fun s pc hs => ⟨h s _ rfl rfl hs.1, hs.2⟩) (fun s code msg hs => ⟨h s _ rfl rfl hs.1, hs.2⟩) fuel ?_
    intro s insn hs hinsn
    refine Keeps.and ?_ ?_
    · exact execute_acts h (ha insn (hs.2 ▸ List.mem_of_getElem? hinsn) fuel)
    · exact execute_runs fuel insn
  refine get_keeps fun s hs => ?_
  split
  · exact .pure
  · split
    · refine Keeps.bind (Keeps.and (h.emitPragmaRow _) (emitPragmaRow_keeps runs_blind (fun _ => trivial) _)) fun _ => Keeps.bind (.modify fun t ht => ?_) fun _ => .pure
      exact ⟨h t _ rfl rfl ht.1, ht.2⟩
    · exact Machine.Keeps.loop hround fuel

end

end Vdbe

end Sqllite
