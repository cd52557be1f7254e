import Sqllite.L2Storage.Recached
import Sqllite.L4Vdbe.Rerun
import Sqllite.L4Vdbe.Shared

/-!
# Queries only read

The program of a `SELECT` has no instruction that begins a transaction, writes, counts or
runs a pragma (`Insn.asks`). Whatever its steps answer, the catalog stays as it is, and so
does the pager but for clean pages in its cache; and what is in the cache does not change an
answer.

* `select_asks`: the instructions of a `SELECT`.
* `step_reads`: what a step leaves.
* `step_matches`: steps on two caches.
-/
namespace Sqllite
open Lib Lib.Run Lib.Machine Vdbe

/-- It changes neither the pages nor the catalog, and counts no change. -/
def Insn.asks (insn : Insn) : Bool := insn.isRead && decide (insn.opcode ≠ .transaction)

section
variable [Unicode] {schema : Schema} {prog : Program} {select : Select}

/-- What holds of the instructions of expressions and of the scans holds of all the code. -/
theorem ScanCode.forall (c : ScanCode select schema) {P : Insn → Prop} (hvalue : ∀ insn : Insn, insn.isValue = true → P insn)
    (hother : ∀ insn : Insn, insn.opcode ∈ [Opcode.init, .openRead, .rewind, .last, .ifNot, .rowData, .resultRow, .groupBy,
      .sort, .bufferRewind, .bufferNext, .goto, .halt] → P insn) : ∀ insn ∈ c.code, P insn := by
  have hloop : ∀ (start : Nat) (cursor : Int) (body : List Insn), (∀ insn ∈ body, P insn) →
      ∀ insn ∈ loopCode start cursor body, P insn := fun start cursor body hbody =>
    List.forall_mem_cons.mpr ⟨hother _ (by simp), List.forall_mem_append.mpr
      ⟨hbody, List.forall_mem_singleton.mpr (hother _ (by simp))⟩⟩
  have hbody : ∀ start, ∀ insn ∈ bodyAt start c.guards c.load c.emit, P insn := by
    intro start
    unfold bodyAt bodyCode
    refine List.forall_mem_append.mpr ⟨fun insn hmem => ?_, List.forall_mem_append.mpr ⟨fun insn hmem => ?_, ?_⟩⟩
    · obtain ⟨g, hg, hmem⟩ := List.mem_flatMap.mp hmem
      rcases List.mem_append.mp hmem with hmem | hmem
      · exact hvalue _ (c.valued_guard hg insn hmem).1
      · exact List.mem_singleton.mp hmem ▸ hother _ (by simp)
    · exact hvalue _ (c.valued_load insn hmem).1
    · refine List.forall_mem_singleton.mpr (hother _ ?_)
      unfold emit emitInsn
      split <;> simp
  have hscans : ∀ insn ∈ c.scans, P insn := by
    unfold scans scansCode
    split
    · exact hloop _ _ _ (hloop _ _ _ (hbody _))
    · exact hloop _ _ _ (hbody _)
  unfold code tailCode resultsCode
  refine List.forall_mem_append.mpr ⟨List.forall_mem_cons.mpr ⟨hother _ (by simp), fun insn hmem => ?_⟩,
    List.forall_mem_append.mpr ⟨hscans, List.forall_mem_append.mpr ⟨?_, ?_⟩⟩⟩
  · obtain ⟨tb, -, rfl⟩ := List.mem_map.mp hmem
    exact hother _ (by simp)
  · unfold groupCode
    split
    · exact List.forall_mem_singleton.mpr (hother _ (by simp))
    · exact List.forall_mem_nil _
  · refine List.forall_mem_append.mpr ⟨?_, List.forall_mem_append.mpr ⟨?_, List.forall_mem_singleton.mpr (hother _ (by simp))⟩⟩
    · split
      · exact List.forall_mem_nil _
      · exact List.forall_mem_singleton.mpr (hother _ (by simp))
    · split
      · refine fun insn hmem => hother insn ?_
        simp only [List.mem_cons, List.not_mem_nil, or_false] at hmem
        rcases hmem with rfl | rfl | rfl | rfl <;> simp
      · exact List.forall_mem_nil _

theorem select_asks (h : compileSelect select schema = .ok prog) : ∀ insn ∈ prog.insns, insn.asks = true := by
  rcases select_cases h with ⟨cursor, name, rfl⟩ | ⟨c, hcode⟩
  · exact List.all_eq_true.mp rfl
  · rw [hcode]
    refine c.forall (fun insn hvalue => ?_) fun insn hmem => ?_
    · obtain ⟨op, p1, p2, p3, p4, p5⟩ := insn
      cases op <;> first | rfl | cases hvalue
    · obtain ⟨op, p1, p2, p3, p4, p5⟩ := insn
      cases op <;> first | rfl | simp at hmem

end

namespace Vdbe

variable [Unicode] {d : Db} {insn : Insn} {fuel : Nat}

/-! ## What a query leaves -/

/-- The catalog of `d`, and its pager but for the cache. -/
def ReadsOnly (d : Db) (s : Machine) : Prop := s.schema = d.schema ∧ d.pager.Recached s.pager

omit [Unicode] in
theorem readsOnly_local : Local (ReadsOnly d) := fun s t hdb _ hs => by
  unfold ReadsOnly
  rw [show t.schema = s.schema from congrArg Db.schema hdb, show t.pager = s.pager from congrArg Db.pager hdb]
  exact hs

theorem asks_acts (h : insn.asks = true) (fuel : Nat) : Acts (ReadsOnly d) fuel insn := by
  have hcursor : ∀ {α : Type} {m : CursorM α}, BtreeCursor.Reading m →
      Keeps (fun c : BtreeCursor => d.pager.Recached c.btree.pager) m :=
    fun hm => hm _ (BtreeCursor.onReads_pager Pager.getPage_recaches)
  constructor
  · intro hop
    unfold Insn.asks at h
    simp [hop] at h
  · intro _
    unfold openTable
    split
    · refine get_keeps fun s hs => ?_
      split
      · exact .lift
      · exact Keeps.bind (set_keeps hs) fun _ => .pure
    · exact .lift
  · intro cs m hm
    exact (Keeps.zoom (hcursor hm) (fun s hs => hs.2) fun s c hs hc => ⟨hs.1, hc⟩).weaken (fun _ hs => hs.1)
      (fun _ _ hs => hs) fun _ hs => hs
  · intro root m hm
    refine Keeps.zoom (J := fun b : Db => b.schema = d.schema ∧ d.pager.Recached b.pager) ?_ (fun s hs => hs) fun _ _ _ hb => hb
    exact Keeps.zoom (hcursor hm) (fun b hb => hb.2) fun b c hb hc => ⟨hb.1, hc⟩
  · intro hop
    obtain ⟨op, p1, p2, p3, p4, p5⟩ := insn
    cases op <;> first | (cases h; done) | simp at hop
  · intro hop
    obtain ⟨op, p1, p2, p3, p4, p5⟩ := insn
    cases op <;> first | (cases h; done) | cases hop
  · intro hop
    obtain ⟨op, p1, p2, p3, p4, p5⟩ := insn
    cases op <;> first | (cases h; done) | cases hop

/-- Whatever a step of a query answers, it has only read. -/
theorem step_reads {prog : Program} (hasks : ∀ insn ∈ prog.insns, insn.asks = true) (fuel : Nat) :
    Keeps (fun s => ReadsOnly d s ∧ Runs prog s) (step fuel) :=
  step_acts readsOnly_local (fun insn hmem fuel => asks_acts (hasks insn hmem) fuel) fuel

/-! ## Queries on two caches -/

/-- The same statement on a pager with another cache. -/
def Recached (s t : Machine) : Prop := ∃ p, s.pager.Recached p ∧ t = { s with pager := p }

section
variable {s t : Machine}
omit [Unicode]

/-- A change of the statement. -/
theorem modify_recached (h : Recached s t) {f : Machine → Machine} (hf : ∀ p, f { s with pager := p } = { f s with pager := p })
    (hpager : (f s).pager = s.pager) : Matches Recached ((modify f : VdbeM PUnit) s) ((modify f : VdbeM PUnit) t) := by
  obtain ⟨p, hp, rfl⟩ := h
  exact ⟨rfl, p, hpager ▸ hp, hf p⟩

theorem setReg_recached (h : Recached s t) (idx : Int) (v : Value) : Matches Recached (setReg idx v s) (setReg idx v t) := by
  unfold setReg
  split
  · exact .lift h
  · exact modify_recached h (fun _ => rfl) rfl

theorem answer_recached (h : Recached s t) (idx : Int) (v : Value) : Matches Recached (answer idx v s) (answer idx v t) :=
  (setReg_recached h idx v).bind fun _ _ _ h => .pure h

theorem jumpIf_recached (h : Recached s t) (c : Bool) (p2 : Int) : Matches Recached (jumpIf c p2 s) (jumpIf c p2 t) := by
  unfold jumpIf
  cases c
  · exact .bind (.pure h) fun _ _ _ h => .pure h
  · exact Matches.bind (modify_recached h (fun _ => rfl) rfl) fun _ _ _ h => .pure h

theorem setRegsFrom_recached : ∀ (row : List Value) (i : Nat) {s t : Machine}, Recached s t →
    Matches Recached (setRegsFrom i row s) (setRegsFrom i row t)
  | [], _, _, _, h => .pure h
  | v :: row, i, _, _, h => (setReg_recached h i v).bind fun _ _ _ h => setRegsFrom_recached row (i + 1) h

theorem emitPragmaRow_recached (h : Recached s t) (idx : Nat) :
    Matches Recached (emitPragmaRow idx s) (emitPragmaRow idx t) := by
  obtain ⟨p, hp, rfl⟩ := h
  refine .get ?_
  dsimp only
  cases s.pragmaPending[idx]? with
  | none => exact .lift ⟨p, hp, rfl⟩
  | some row =>
    exact (setRegsFrom_recached row 0 ⟨p, hp, rfl⟩).bind fun _ _ _ h => modify_recached h (fun _ => rfl) rfl

theorem bufferNext_recached (h : Recached s t) (p2 : Int) : Matches Recached (bufferNext p2 s) (bufferNext p2 t) := by
  obtain ⟨p, hp, rfl⟩ := h
  refine .get ?_
  dsimp only
  cases s.rowBuffer[s.bufferIdx]? with
  | none => exact Matches.bind (modify_recached ⟨p, hp, rfl⟩ (fun _ => rfl) rfl) fun _ _ _ h => .pure h
  | some row =>
    refine (setRegsFrom_recached row 0 ⟨p, hp, rfl⟩).bind fun _ _ _ h => ?_
    exact Matches.bind (modify_recached h (fun _ => rfl) rfl) fun _ _ _ h => .pure h

theorem withCursor_recached (h : Recached s t) {id : Int} {f f' : CursorState → VdbeM StepResult}
    (hf : ∀ cs, Matches Recached (f cs s) (f' cs t)) : Matches Recached (withCursor id f s) (withCursor id f' t) := by
  have hcursors : t.cursors = s.cursors := by
    obtain ⟨p, -, rfl⟩ := h
    rfl
  refine .get ?_
  rw [hcursors]
  cases s.cursors.lookup id with
  | none => exact .pure h
  | some cs => exact hf cs

/-- A cursor that reads both pagers alike. -/
theorem onCursor_recached (h : Recached s t) (id : Int) (cs : CursorState) {m : CursorM Bool}
    (hm : ∀ {c c' : BtreeCursor}, c.Recached c' → Matches BtreeCursor.Recached (m c) (m c')) :
    Matches Recached (onCursor id cs m s) (onCursor id cs m t) := by
  obtain ⟨p, hp, rfl⟩ := h
  refine Matches.parts (@hm (cs.cursor.attach s.pager) (cs.cursor.attach p) ⟨p, hp, rfl⟩) ?_
  rintro c _ ⟨q, hq, rfl⟩
  exact ⟨q, hq, rfl⟩

theorem onDb_recached (h : Recached s t) (c : SavedCursor) {m : CursorM Int}
    (hm : ∀ {c c' : BtreeCursor}, c.Recached c' → Matches BtreeCursor.Recached (m c) (m c')) :
    Matches Recached (onDb (Db.onCursor c m) s) (onDb (Db.onCursor c m) t) := by
  obtain ⟨p, hp, rfl⟩ := h
  refine Matches.parts (Matches.parts (R := fun b b' : Db => ∃ q, b.pager.Recached q ∧ b' = { b with pager := q })
    (@hm (c.attach s.pager) (c.attach p) ⟨p, hp, rfl⟩) ?_) ?_
  · rintro c _ ⟨q, hq, rfl⟩
    exact ⟨q, hq, rfl⟩
  · rintro b _ ⟨q, hq, rfl⟩
    exact ⟨q, hq, rfl⟩

end

section
variable {s t : Machine}

theorem openTable_recached (h : Recached s t) (id : Int) (p4 : InsnP4) :
    Matches Recached (openTable id p4 s) (openTable id p4 t) := by
  unfold openTable
  cases p4 with
  | string name =>
    obtain ⟨p, hp, rfl⟩ := h
    refine .get ?_
    dsimp only
    cases s.schema.table name with
    | none => exact .lift ⟨p, hp, rfl⟩
    | some table => exact Matches.bind (.set ⟨p, hp, rfl⟩) fun _ _ _ h => .pure h
  | _ => exact .lift h

/-- An instruction of a query does not see the cache. -/
theorem execute_recached (hasks : insn.asks = true) (fuel : Nat) (h : Recached s t) :
    Matches Recached (execute fuel insn s) (execute fuel insn t) := by
  obtain ⟨op, p1, p2, p3, p4, p5⟩ := insn
  have hmove : ∀ {m : CursorM Bool} (c : Bool → Bool), (∀ {c c' : BtreeCursor}, c.Recached c' →
      Matches BtreeCursor.Recached (m c) (m c')) → Matches Recached
        (withCursor p1 (fun cs => do
          let found ← onCursor p1 cs m
          jumpIf (c found) p2) s)
        (withCursor p1 (fun cs => do
          let found ← onCursor p1 cs m
          jumpIf (c found) p2) t) := fun c hm =>
    withCursor_recached h fun cs => (onCursor_recached h _ cs hm).bind fun _ _ _ h => jumpIf_recached h _ _
  refine .get ?_
  cases op with
  | init | blob | closer | createBtree | destroy | dropTable | setCookie | halt => exact .pure h
  | goto => exact jumpIf_recached h _ _
  | integer | null => exact answer_recached h _ _
  | int64 | real | string => cases p4 <;> first | exact answer_recached h _ _ | exact .pure h
  | isNull | notNull | «if» | ifNot =>
    obtain ⟨p, hp, rfl⟩ := h
    exact jumpIf_recached ⟨p, hp, rfl⟩ _ _
  | move | copy | eq | ne | lt | le | gt | ge | and | or | not | concat =>
    obtain ⟨p, hp, rfl⟩ := h
    exact answer_recached ⟨p, hp, rfl⟩ _ _
  | resultRow | rowData =>
    obtain ⟨p, hp, rfl⟩ := h
    exact Matches.bind (.set ⟨p, hp, rfl⟩) fun _ _ _ h => .pure h
  | bufferRewind =>
    obtain ⟨p, hp, rfl⟩ := h
    exact Matches.bind (.set ⟨p, hp, rfl⟩) fun _ _ _ h => jumpIf_recached h _ _
  | groupBy =>
    obtain ⟨p, hp, rfl⟩ := h
    cases p4 with
    | groupBy spec => exact Matches.bind (.set ⟨p, hp, rfl⟩) fun _ _ _ h => .pure h
    | _ => exact .pure ⟨p, hp, rfl⟩
  | sort =>
    obtain ⟨p, hp, rfl⟩ := h
    cases p4 with
    | sortKeys keys => exact Matches.bind (.set ⟨p, hp, rfl⟩) fun _ _ _ h => .pure h
    | _ => exact .pure ⟨p, hp, rfl⟩
  | openRead | openWrite => exact openTable_recached h _ _
  | rewind => exact hmove _ BtreeCursor.first_matches
  | last | sorterNext => exact hmove id BtreeCursor.next_matches
  | seekRowid =>
    obtain ⟨p, hp, rfl⟩ := h
    exact hmove _ (BtreeCursor.seek_matches _)
  | column => exact withCursor_recached h fun cs => Matches.bind (.lift h) fun _ _ _ h => answer_recached h _ _
  | rowid =>
    refine withCursor_recached h fun cs => ?_
    cases cs.cursor.currentKey with
    | none => exact .pure h
    | some id => exact answer_recached h _ _
  | makeRecord | remainder =>
    obtain ⟨p, hp, rfl⟩ := h
    exact Matches.bind (.lift ⟨p, hp, rfl⟩) fun _ _ _ h => answer_recached h _ _
  | add | subtract | multiply | divide =>
    obtain ⟨p, hp, rfl⟩ := h
    exact Matches.get (answer_recached ⟨p, hp, rfl⟩ _ _)
  | notFound | found => exact withCursor_recached h fun cs => jumpIf_recached h _ _
  | count =>
    refine withCursor_recached h fun cs => ?_
    refine (onDb_recached h _ (BtreeCursor.scan_matches (fun _ _ _ _ => rfl) _ _)).bind fun _ _ _ h => ?_
    exact answer_recached h _ _
  | bufferNext => exact bufferNext_recached h _
  | transaction | newRowid | insert | insertInt | delete | pragma => cases hasks

/-- The steps of a query do not see the cache either. -/
def Asking (prog : Program) (s t : Machine) : Prop := Recached s t ∧ Runs prog s

theorem round_recached {prog : Program} (hasks : ∀ insn ∈ prog.insns, insn.asks = true) (fuel : Nat) (s t : Machine)
    (h : Asking prog s t) : Matches (Asking prog) (Vdbe.round fuel s) (Vdbe.round fuel t) := by
  refine Matches.keeping ?_ (round_runs fuel) h.2
  obtain ⟨⟨p, hp, rfl⟩, hprog⟩ := h
  refine .get ?_
  dsimp only
  cases hinsn : s.program.insns[s.pc]? with
  | none => exact .pure ⟨p, hp, rfl⟩
  | some insn =>
    have hmem := hasks insn (hprog ▸ List.mem_of_getElem? hinsn)
    refine Matches.bind (.set ⟨p, hp, rfl⟩) fun _ _ _ h => (execute_recached hmem fuel h).bind fun result _ _ h => ?_
    cases result with
    | «continue» | row | done => exact .pure h
    | halt code msg =>
      refine Matches.bind (modify_recached h (fun _ => rfl) rfl) fun _ _ _ h => ?_
      split
      · exact .pure h
      · exact .lift h

theorem step_matches {prog : Program} (hasks : ∀ insn ∈ prog.insns, insn.asks = true) (fuel : Nat)
    (h : Asking prog s t) : Matches (Asking prog) (step fuel s) (step fuel t) := by
  obtain ⟨⟨p, hp, rfl⟩, hprog⟩ := h
  refine .get ?_
  dsimp only
  split
  · exact .pure ⟨⟨p, hp, rfl⟩, hprog⟩
  · split
    · refine Matches.keeping ?_ ?_ hprog
      · refine (emitPragmaRow_recached ⟨p, hp, rfl⟩ _).bind fun _ _ _ h => ?_
        exact Matches.bind (modify_recached h (fun _ => rfl) rfl) fun _ _ _ h => .pure h
      · exact (emitPragmaRow_keeps runs_blind (fun _ => trivial) _).bind fun _ => Keeps.bind (.modify fun _ hs => hs) fun _ => .pure
    · exact Matches.loop (round_recached hasks fuel) fuel _ _ ⟨⟨p, hp, rfl⟩, hprog⟩

end

end Vdbe

end Sqllite
