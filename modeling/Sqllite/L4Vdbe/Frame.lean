import Sqllite.L4Vdbe.Exec

/-!
# What an instruction does not touch

An instruction moves the program counter by a jump or not at all, it changes the buffer if it
is one of a few, the program never, no register is taken away, and it adds as many as it needs
(`Insn.reach`). A property of these (`Blind`) is kept by every part of an instruction, and by
the instruction where jumps and changes of the buffer keep it.

* `execute_keeps`: what an instruction keeps.
-/
namespace Sqllite
open Lib Lib.Run Lib.Machine

/-- The jump operand of an instruction that has one, as an address. -/
def Insn.jump (insn : Insn) : Option Nat :=
  match insn.opcode with
  | .goto | .if | .ifNot | .isNull | .notNull | .rewind | .last | .sorterNext | .seekRowid | .notFound | .found
  | .bufferRewind | .bufferNext => some (Vdbe.address insn.p2)
  | _ => none

/-- The opcodes that change the buffer or the place in it. -/
def Opcode.buffers : Opcode → Bool
  | .rowData | .groupBy | .sort | .bufferRewind | .bufferNext => true
  | _ => false

/-- The opcodes that count a change or set the last rowid. -/
def Opcode.counts : Opcode → Bool
  | .newRowid | .insert | .insertInt | .delete => true
  | _ => false

/-- The registers an opcode needs for its result, or for a row it puts into the buffer. -/
def Insn.reach (insn : Insn) : Nat :=
  match insn.opcode with
  | .integer | .int64 | .real | .string | .null | .move | .copy | .column | .rowid | .newRowid | .eq | .ne | .lt | .le
  | .gt | .ge | .and | .or | .not | .add | .subtract | .multiply | .divide | .remainder | .concat | .count =>
    insn.p1.toNat + 1
  | .makeRecord => insn.p3.toNat + 1
  | .rowData => insn.p1.toNat
  | .groupBy =>
    match insn.p4 with
    | .groupBy spec => spec.keyIndices.length + spec.aggs.length
    | _ => 0
  | _ => 0

theorem length_putReg (regs : List Value) (i : Nat) (v : Value) : (putReg regs i v).length = max regs.length (i + 1) := by
  unfold putReg
  split
  · rw [List.length_set]
    omega
  · simp only [List.length_append, List.length_replicate, List.length_singleton]
    omega

/-- A row of a group has the values of its key and of the aggregates. -/
theorem length_applyGroupBy (spec : GroupBySpec) (rows : List (List Value)) :
    ∀ row ∈ applyGroupBy spec rows, row.length = spec.keyIndices.length + spec.aggs.length := by
  have hsizes : ∀ (rows : List (List Value)) (groups : Groups),
      (∀ text entry, groups.lookup text = some entry →
        entry.1.length = spec.keyIndices.length ∧ entry.2.length = spec.aggs.length) →
      ∀ text entry, (rows.foldl (addToGroup spec) groups).lookup text = some entry →
        entry.1.length = spec.keyIndices.length ∧ entry.2.length = spec.aggs.length := by
    intro rows
    induction rows with
    | nil => exact fun _ h => h
    | cons row rows ih =>
      refine fun groups h => ih (addToGroup spec groups row) fun text entry hlookup => ?_
      simp only [addToGroup] at hlookup
      generalize (String.singleton '\x1f').intercalate _ = keyStr at hlookup
      have hold : ∀ entry, entry = (groups.lookup keyStr).getD
          (spec.keyIndices.map fun i => row[i]?.getD .null, spec.aggs.map fun _ => AggState.new) →
          entry.1.length = spec.keyIndices.length ∧ entry.2.length = spec.aggs.length := by
        rintro entry rfl
        cases hkey : groups.lookup keyStr with
        | none => exact ⟨List.length_map _, List.length_map _⟩
        | some e => exact h keyStr e hkey
      by_cases htext : text = keyStr
      · rw [htext, AList.lookup_insert] at hlookup
        obtain rfl := Option.some.inj hlookup
        obtain ⟨hkeys, hstates⟩ := hold _ rfl
        refine ⟨hkeys, ?_⟩
        rw [List.length_map, List.length_zip, hstates, Nat.min_self]
      · rw [AList.lookup_insert_ne htext] at hlookup
        exact h text entry hlookup
  intro row hrow
  obtain ⟨entry, hentry, rfl⟩ := List.mem_map.mp hrow
  obtain ⟨⟨text, e⟩, he, rfl⟩ := List.mem_map.mp hentry
  obtain ⟨hkeys, hstates⟩ := hsizes rows ∅ (fun _ _ h => nomatch h) text e (Table.mem_entries_iff.mp he)
  rw [List.length_append, List.length_map, List.length_zip, hkeys, hstates, Nat.min_self]

theorem mem_sortBuffer {keys : List SortKey} {rows : List (List Value)} {row : List Value}
    (h : row ∈ sortBuffer keys rows) : row ∈ rows := List.mem_mergeSort.mp h

namespace Vdbe

variable {α : Type} {P : Nat → Prop} {I : Machine → Prop}

/-- Whether it has halted, and what it tells about its changes. -/
def marks (v : Vdbe) : Bool × Int × Int := (v.halted, v.changes, v.lastRowid)

/-- It depends on the program, the place in it, the buffer, the rows of a pragma, the marks, the
cursors that are there and the number of registers; it holds with more cursors, and with more
registers where `P` allows so many. -/
def Blind (P : Nat → Prop) (I : Machine → Prop) : Prop :=
  ∀ s t : Machine, t.program = s.program → t.pc = s.pc → t.rowBuffer = s.rowBuffer → t.bufferIdx = s.bufferIdx →
    t.pragmaPending = s.pragmaPending → t.marks = s.marks → (∀ id, (s.cursors.lookup id).isSome → (t.cursors.lookup id).isSome) →
    (t.regs.length = s.regs.length ∨ s.regs.length < t.regs.length ∧ P t.regs.length) → I s → I t

theorem setReg_keeps (h : Blind P I) {idx : Int} (hidx : P (idx.toNat + 1)) (v : Value) : Keeps I (setReg idx v) := by
  unfold setReg
  split
  · exact Keeps.lift
  · refine Keeps.modify fun s hs => h s _ rfl rfl rfl rfl rfl rfl (fun _ => id) ?_ hs
    dsimp only
    rw [length_putReg]
    rcases Nat.lt_or_ge s.regs.length (idx.toNat + 1) with hlt | hge
    · rw [Nat.max_eq_right (Nat.le_of_lt hlt)]
      exact .inr ⟨hlt, hidx⟩
    · exact .inl (Nat.max_eq_left hge)

theorem answer_keeps (h : Blind P I) {idx : Int} (hidx : P (idx.toNat + 1)) (v : Value) : Keeps I (answer idx v) :=
  (setReg_keeps h hidx v).bind fun _ => .pure

theorem jumpIf_keeps (c : Bool) (p2 : Int) (hjump : ∀ s, I s → I { s with pc := address p2 }) :
    Keeps I (jumpIf c p2) := by
  unfold jumpIf
  cases c
  · exact Keeps.bind .pure fun _ => .pure
  · exact Keeps.bind (Keeps.modify hjump) fun _ => .pure

/-- What is done behind a look at the state. -/
theorem get_keeps {f : Machine → VdbeM α} (h : ∀ s, I s → Keeps I (f s)) : Keeps I (get >>= f) :=
  Hoare.get_bind fun s hs => (h s hs).weaken (fun _ ht => ht ▸ hs) (fun _ _ ht => ht) fun _ ht => ht

theorem set_keeps {s : Machine} (h : I s) : Keeps I (set s : VdbeM PUnit) := fun _ _ => h

theorem zoom_keeps {τ : Type} {get : Machine → τ} {put : τ → Machine → Machine}
    (hput : ∀ t s, I s → I (put t s)) (m : Prog SqlliteError τ α) : Keeps I (zoom get put m) :=
  Keeps.zoom (J := fun _ => True) (fun s _ => by cases m s <;> trivial) (fun _ _ => trivial)
    fun s t hs _ => hput t s hs

theorem onPager_keeps (h : Blind P I) (m : PagerM α) : Keeps I (onPager m) := by
  unfold onPager
  refine zoom_keeps (fun _ s hs => ?_) m
  exact h s _ rfl rfl rfl rfl rfl rfl (fun _ => id) (.inl rfl) hs

theorem onDb_keeps (h : Blind P I) (m : DbM α) : Keeps I (onDb m) := by
  unfold onDb
  refine zoom_keeps (fun _ s hs => ?_) m
  exact h s _ rfl rfl rfl rfl rfl rfl (fun _ => id) (.inl rfl) hs

/-- A table with another entry has the old ones. -/
theorem isSome_insert {id id' : Int} {cs : CursorState} {cursors : Lib.Table Int CursorState}
    (h : (cursors.lookup id').isSome) : ((cursors.insert id cs).lookup id').isSome := by
  by_cases hid : id' = id
  · rw [hid, AList.lookup_insert]
    rfl
  · rwa [AList.lookup_insert_ne hid]

theorem onCursor_keeps (h : Blind P I) (id : Int) (cs : CursorState) (m : CursorM α) : Keeps I (onCursor id cs m) := by
  unfold onCursor
  refine zoom_keeps (fun _ s hs => ?_) m
  exact h s _ rfl rfl rfl rfl rfl rfl (fun _ => isSome_insert) (.inl rfl) hs

theorem onBtree_keeps (h : Blind P I) (id : Int) (cs : CursorState) (m : BtreeM α) : Keeps I (onBtree id cs m) := by
  unfold onBtree
  refine zoom_keeps (fun _ s hs => ?_) m
  exact h s _ rfl rfl rfl rfl rfl rfl (fun _ => isSome_insert) (.inl rfl) hs

theorem withCursor_keeps {id : Int} {f : CursorState → VdbeM StepResult} (h : ∀ cs, Keeps I (f cs)) :
    Keeps I (withCursor id f) := by
  refine get_keeps fun s _ => ?_
  cases s.cursors.lookup id with
  | none => exact .pure
  | some cs => exact h cs

theorem setRegsFrom_keeps (h : Blind P I) : ∀ (i : Nat) (row : List Value), (∀ k, k ≤ i + row.length → P k) →
    Keeps I (setRegsFrom i row)
  | _, [], _ => .pure
  | i, v :: row, hrow => by
    have hlen : (v :: row).length = row.length + 1 := rfl
    refine (setReg_keeps h (hrow _ (by omega)) v).bind fun _ => setRegsFrom_keeps h (i + 1) row fun k hk => ?_
    exact hrow k (by omega)

theorem emitPragmaRow_keeps (h : Blind P I) (hall : ∀ k, P k) (idx : Nat) : Keeps I (emitPragmaRow idx) := by
  refine get_keeps fun s _ => ?_
  cases s.pragmaPending[idx]? with
  | none => exact .lift
  | some row =>
    exact (setRegsFrom_keeps h 0 row fun k _ => hall k).bind fun _ => .modify fun s hs => h s _ rfl rfl rfl rfl rfl rfl (fun _ => id) (.inl rfl) hs

theorem countChange_keeps (hcount : ∀ s n r, I s → I { s with changes := n, lastRowid := r }) : Keeps I countChange := by
  refine get_keeps fun s hs => ?_
  split
  · exact set_keeps (hcount s _ s.lastRowid hs)
  · exact .lift

theorem bufferNext_keeps (h : Blind P I) (p2 : Int) (hrow : ∀ s, I s → ∀ row ∈ s.rowBuffer, ∀ k, k ≤ row.length → P k)
    (hjump : ∀ s, I s → I { s with pc := address p2 })
    (hidx : ∀ s, I s → I { s with bufferIdx := s.bufferIdx + 1 }) : Keeps I (bufferNext p2) := by
  refine get_keeps fun s hs => ?_
  cases hget : s.rowBuffer[s.bufferIdx]? with
  | none => exact (Keeps.modify hjump).bind fun _ => .pure
  | some row =>
    refine (setRegsFrom_keeps h 0 row fun k hk => ?_).bind fun _ => Keeps.bind (.modify hidx) fun _ => .pure
    exact hrow s hs row (List.mem_of_getElem? hget) k (by omega)

theorem allocateRowid_keeps (h : Blind P I) (fuel : Nat) (id : Int) : Keeps I (allocateRowid fuel id) := by
  refine get_keeps fun s _ => ?_
  cases s.cursors.lookup id with
  | none => exact .pure
  | some cs => exact onDb_keeps h _

theorem executeDelete_keeps (h : Blind P I) (hcount : ∀ s n r, I s → I { s with changes := n, lastRowid := r }) (id : Int) (cs : CursorState) : Keeps I (executeDelete id cs) := by
  unfold executeDelete
  cases cs.cursor.currentKey with
  | none => exact .pure
  | some rowid => exact (onBtree_keeps h _ _ _).bind fun _ => (countChange_keeps hcount).bind fun _ => .pure

section
variable [Unicode]

theorem openTable_keeps (h : Blind P I) (id : Int) (p4 : InsnP4) : Keeps I (openTable id p4) := by
  unfold openTable
  split
  · refine get_keeps fun s hs => ?_
    split
    · exact .lift
    · exact Keeps.bind (set_keeps (h s _ rfl rfl rfl rfl rfl rfl (fun _ => isSome_insert) (.inl rfl) hs)) fun _ => .pure
  · exact .lift

theorem executeInsert_keeps (h : Blind P I) (hcount : ∀ s n r, I s → I { s with changes := n, lastRowid := r }) (fuel : Nat)
    (insn : Insn) (cs : CursorState) : Keeps I (executeInsert fuel insn cs) :=
  get_keeps fun _ _ => Keeps.lift.bind fun _ => Keeps.lift.bind fun _ => (onBtree_keeps h _ _ _).bind fun _ =>
    (onDb_keeps h _).bind fun _ => (countChange_keeps hcount).bind fun _ =>
      Keeps.bind (.modify fun s hs => hcount s s.changes _ hs) fun _ => .pure

theorem executePragmaInsn_keeps (h : Blind P I) (hall : ∀ k, P k)
    (hrows : ∀ s rows, I s → I { s with pragmaPending := rows }) (p4 : InsnP4) : Keeps I (executePragmaInsn p4) := by
  unfold executePragmaInsn
  split
  · refine get_keeps fun s _ => (onPager_keeps h _).bind fun rows =>
      Keeps.bind (.modify fun s hs => h { s with pragmaPending := rows } _ rfl rfl rfl rfl rfl rfl (fun _ => id) (.inl rfl) (hrows s rows hs))
        fun _ => ?_
    split
    · exact .pure
    · exact (emitPragmaRow_keeps h hall 0).bind fun _ =>
        Keeps.bind (.modify fun s hs => h s _ rfl rfl rfl rfl rfl rfl (fun _ => id) (.inl rfl) hs) fun _ => .pure
  · exact .pure

/-- An instruction keeps what its jump and its change of the buffer keep, where there may be the
registers that it needs. -/
theorem execute_keeps (h : Blind P I) (fuel : Nat) (insn : Insn) (hreach : ∀ k, k ≤ insn.reach → P k)
    (hpragma : insn.opcode = .pragma → (∀ k, P k) ∧ ∀ s rows, I s → I { s with pragmaPending := rows })
    (hrow : insn.opcode = .bufferNext → ∀ s, I s → ∀ row ∈ s.rowBuffer, ∀ k, k ≤ row.length → P k)
    (hjump : ∀ t, insn.jump = some t → ∀ s, I s → I { s with pc := t })
    (hbuffer : insn.opcode.buffers = true → ∀ s rows idx, (∀ row ∈ rows, row ∈ s.rowBuffer ∨ row.length ≤ insn.reach) →
      I s → I { s with rowBuffer := rows, bufferIdx := idx })
    (hcount : insn.opcode.counts = true → ∀ s n r, I s → I { s with changes := n, lastRowid := r }) :
    Keeps I (execute fuel insn) := by
  obtain ⟨op, p1, p2, p3, p4, p5⟩ := insn
  refine get_keeps fun s hs => ?_
  have hsame : ∀ columns, I { s with resultColumns := columns } := fun columns =>
    h s _ rfl rfl rfl rfl rfl rfl (fun _ => id) (.inl rfl) hs
  cases op with
  | init | blob | closer | createBtree | destroy | dropTable | setCookie | halt => exact .pure
  | goto | isNull | notNull | «if» | ifNot => exact jumpIf_keeps _ _ (hjump _ rfl)
  | integer | null | move | copy | eq | ne | lt | le | gt | ge | and | or | not | concat =>
    exact answer_keeps h (hreach _ (Nat.le_refl _)) _
  | int64 | real | string =>
    cases p4 <;> first | exact answer_keeps h (hreach _ (Nat.le_refl _)) _ | exact .pure
  | resultRow => exact Keeps.bind (set_keeps (hsame _)) fun _ => .pure
  | rowData =>
    refine Keeps.bind (set_keeps (hbuffer rfl s _ s.bufferIdx (fun row hrow => ?_) hs)) fun _ => .pure
    refine (List.mem_append.mp hrow).imp_right fun hnew => ?_
    rw [List.mem_singleton.mp hnew, List.length_map, List.length_range]
    exact Nat.le_refl _
  | bufferRewind =>
    refine Keeps.bind (set_keeps (hbuffer rfl s s.rowBuffer 0 (fun _ => .inl) hs)) fun _ => jumpIf_keeps _ _ (hjump _ rfl)
  | groupBy =>
    cases p4 with
    | groupBy spec =>
      refine Keeps.bind (set_keeps (hbuffer rfl s _ 0 (fun row hrow => .inr ?_) hs)) fun _ => .pure
      exact Nat.le_of_eq (length_applyGroupBy spec s.rowBuffer row hrow)
    | _ => exact .pure
  | sort =>
    cases p4 with
    | sortKeys keys =>
      exact Keeps.bind (set_keeps (hbuffer rfl s _ s.bufferIdx (fun _ hrow => .inl (mem_sortBuffer hrow)) hs)) fun _ => .pure
    | _ => exact .pure
  | transaction => exact (onPager_keeps h _).bind fun _ => .pure
  | openRead | openWrite => exact openTable_keeps h _ _
  | rewind | last | sorterNext | seekRowid =>
    exact withCursor_keeps fun cs => (onCursor_keeps h _ _ _).bind fun _ => jumpIf_keeps _ _ (hjump _ rfl)
  | column =>
    exact withCursor_keeps fun cs => Keeps.lift.bind fun _ => answer_keeps h (hreach _ (Nat.le_refl _)) _
  | rowid =>
    refine withCursor_keeps fun cs => ?_
    cases cs.cursor.currentKey with
    | none => exact .pure
    | some id => exact answer_keeps h (hreach _ (Nat.le_refl _)) _
  | makeRecord | remainder => exact Keeps.lift.bind fun _ => answer_keeps h (hreach _ (Nat.le_refl _)) _
  | newRowid =>
    exact (allocateRowid_keeps h _ _).bind fun _ => (setReg_keeps h (hreach _ (Nat.le_refl _)) _).bind fun _ =>
      Keeps.bind (.modify fun s hs => hcount rfl s s.changes _ hs) fun _ => .pure
  | insert | insertInt => exact withCursor_keeps fun cs => executeInsert_keeps h (hcount rfl) _ _ _
  | delete => exact withCursor_keeps fun cs => executeDelete_keeps h (hcount rfl) _ _
  | add | subtract | multiply | divide =>
    exact get_keeps fun _ _ => answer_keeps h (hreach _ (Nat.le_refl _)) _
  | notFound | found => exact withCursor_keeps fun cs => jumpIf_keeps _ _ (hjump _ rfl)
  | count =>
    exact withCursor_keeps fun cs => (onDb_keeps h _).bind fun _ => answer_keeps h (hreach _ (Nat.le_refl _)) _
  | pragma => exact executePragmaInsn_keeps h (hpragma rfl).1 (hpragma rfl).2 _
  | bufferNext =>
    exact bufferNext_keeps h _ (hrow rfl) (hjump _ rfl) fun s hs =>
      hbuffer rfl s s.rowBuffer (s.bufferIdx + 1) (fun _ => .inl) hs

/-! ## Rounds and steps -/

/-- What a round does with the result of its instruction. -/
def roundEnd : StepResult → VdbeM (Option ResultCode)
  | .continue => pure none
  | .row => pure (some .row)
  | .done => pure (some .done)
  | .halt code msg => do
    modify fun s => { s with halted := true, haltCode := code, haltMessage := msg }
    if code.isOk then pure (some .done) else lift (fail code msg)

theorem round_eq {s : Machine} {insn : Insn} (fuel : Nat) (hinsn : s.program.insns[s.pc]? = some insn) :
    round fuel s = (execute fuel insn >>= roundEnd) { s with pc := s.pc + 1 } := by
  unfold round
  rw [bind_ok (get_apply s), hinsn]
  exact bind_ok (set_apply _ _) _

omit [Unicode] in
theorem roundEnd_keeps (hhalt : ∀ s code msg, I s → I { s with halted := true, haltCode := code, haltMessage := msg })
    (result : StepResult) : Keeps I (roundEnd result) := by
  cases result with
  | «continue» | row | done => exact .pure
  | halt code msg =>
    refine Keeps.bind (.modify fun t ht => hhalt t code msg ht) fun _ => ?_
    split
    · exact .pure
    · exact .lift

/-- What the instructions keep, a round keeps, where it does not depend on the place. -/
theorem round_keeps (hpc : ∀ s pc, I s → I { s with pc := pc })
    (hhalt : ∀ s code msg, I s → I { s with halted := true, haltCode := code, haltMessage := msg }) (fuel : Nat)
    (hexec : ∀ s insn, I s → s.program.insns[s.pc]? = some insn → Keeps I (execute fuel insn)) : Keeps I (round fuel) := by
  refine get_keeps fun s hs => ?_
  cases hinsn : s.program.insns[s.pc]? with
  | none => exact .pure
  | some insn =>
    exact Keeps.bind (set_keeps (hpc s _ hs)) fun _ => (hexec s insn hs hinsn).bind fun result => roundEnd_keeps hhalt result

/-- What the instructions and the rows of a pragma keep, a step keeps. -/
theorem step_keeps (h : Blind P I) (hpc : ∀ s pc, I s → I { s with pc := pc })
    (hhalt : ∀ s code msg, I s → I { s with halted := true, haltCode := code, haltMessage := msg }) (fuel : Nat)
    (hexec : ∀ s insn, I s → s.program.insns[s.pc]? = some insn → Keeps I (execute fuel insn))
    (hrows : ∀ s, I s → s.pragmaPending ≠ [] → ∀ k, P k) : Keeps I (step fuel) := by
  refine get_keeps fun s hs => ?_
  split
  · exact .pure
  · split
    · next hidx =>
      have hne : s.pragmaPending ≠ [] := fun hnil => by
        rw [hnil] at hidx
        exact absurd hidx (Nat.not_lt_zero _)
      exact (emitPragmaRow_keeps h (hrows s hs hne) _).bind fun _ =>
        Keeps.bind (.modify fun s hs => h s _ rfl rfl rfl rfl rfl rfl (fun _ => id) (.inl rfl) hs) fun _ => .pure
    · exact Machine.Keeps.loop (round_keeps hpc hhalt fuel hexec) fuel

end

end Vdbe

end Sqllite
