import Sqllite.Lib.Flow
import Sqllite.L3Sql.JoinCode
import Sqllite.L4Vdbe.Frame
import Sqllite.L4Vdbe.ValueCode

/-!
# Where the code of a statement can go

Every program of the compiler is laid out alike: it opens its tables, then comes code whose
jumps stay in it, and `Halt` (`Laid`).

* `compile_laid`: the layout of every program.

A program rewinds a cursor at one place only, and the loop over the buffer is the last thing
it does (`Looped`).
-/
namespace Sqllite
open Lib Lib.Run Lib.Flow Vdbe

/-- Whether the next instruction can follow. -/
def Insn.falls (insn : Insn) : Bool :=
  match insn.opcode with
  | .goto | .halt => false
  | _ => true

/-- The cursor an instruction uses. -/
def Insn.uses (insn : Insn) : Option Int :=
  match insn.opcode with
  | .rewind | .last | .sorterNext | .seekRowid | .notFound | .found => some insn.p1
  | .column | .rowid | .newRowid | .insert | .insertInt | .delete | .count => some insn.p2
  | _ => none

/-- The cursor an instruction opens. -/
def Insn.opens (insn : Insn) : Option Int :=
  match insn.opcode with
  | .openRead | .openWrite => some insn.p1
  | _ => none

/-- The flow of control in a program. -/
def flow : Control Insn := { falls := Insn.falls, target := Insn.jump }

/-- The head of a loop and the instruction that goes back: a scan, or the loop over the buffer. -/
def Heads (h a : Insn) : Prop :=
  h.opcode = .rewind ∧ a.opcode = .last ∧ h.p1 = a.p1 ∨ h.opcode = .bufferRewind ∧ a.opcode = .goto

/-! ## Straight code -/

/-- Code without jumps that uses some cursors only. -/
def Plain (cursors : List Int) (code : List Insn) : Prop :=
  ∀ insn ∈ code, insn.falls = true ∧ insn.jump = none ∧ ∀ c, insn.uses = some c → c ∈ cursors

section
variable {cursors : List Int} {code code' : List Insn}

theorem Plain.nil : Plain cursors [] := fun _ h => absurd h List.not_mem_nil

theorem Plain.append (h : Plain cursors code) (h' : Plain cursors code') : Plain cursors (code ++ code') := by
  intro insn hmem
  rcases List.mem_append.mp hmem with hm | hm
  · exact h insn hm
  · exact h' insn hm

theorem Plain.single {insn : Insn} (hfalls : insn.falls = true) (hjump : insn.jump = none)
    (huses : ∀ c, insn.uses = some c → c ∈ cursors) : Plain cursors [insn] := by
  intro i hi
  rw [List.mem_singleton.mp hi]
  exact ⟨hfalls, hjump, huses⟩

/-- Code without jumps and cursors. -/
theorem Plain.other (h : code.all (fun insn => insn.falls && insn.jump.isNone && insn.uses.isNone) = true) :
    Plain cursors code := by
  intro insn hmem
  have hall := List.all_eq_true.mp h insn hmem
  simp only [Bool.and_eq_true, Option.isNone_iff_eq_none] at hall
  exact ⟨hall.1.1, hall.1.2, fun c hc => by rw [hall.2] at hc; cases hc⟩

/-- The code of an expression goes straight on. -/
theorem Valued.plain {low : Int} (h : Valued cursors low code) : Plain cursors code := by
  intro insn hmem
  obtain ⟨hvalue, hcolumn, -⟩ := h insn hmem
  obtain ⟨op, p1, p2, p3, p4, p5⟩ := insn
  cases op <;> first
    | cases hvalue; done
    | exact ⟨rfl, rfl, fun c hc => Option.some.inj hc ▸ hcolumn rfl⟩
    | exact ⟨rfl, rfl, fun _ hc => by cases hc⟩

end

/-! ## Heads of loops -/

/-- What the loop behind an instruction goes through: a cursor, or the buffer (`none`). -/
def Insn.loops (insn : Insn) : Option (Option Int) :=
  match insn.opcode with
  | .rewind => some (some insn.p1)
  | .bufferRewind => some none
  | _ => none

/-- What the loops of the code go through. -/
def loopsOf (code : List Insn) : List (Option Int) := code.filterMap Insn.loops

section
variable {cursors : List Int} {code code' : List Insn}

theorem loopsOf_append (code code' : List Insn) : loopsOf (code ++ code') = loopsOf code ++ loopsOf code' :=
  List.filterMap_append

theorem Insn.loops_of_jump {insn : Insn} (h : insn.jump = none) : insn.loops = none := by
  obtain ⟨op, p1, p2, p3, p4, p5⟩ := insn
  cases op <;> first | rfl | cases h

theorem Plain.loopsOf_eq (h : Plain cursors code) : loopsOf code = [] :=
  List.filterMap_eq_nil_iff.mpr fun insn hmem => Insn.loops_of_jump (h insn hmem).2.1

theorem loopsOf_loopCode (start : Nat) (cursor : Int) (body : List Insn) :
    loopsOf (loopCode start cursor body) = some cursor :: loopsOf body := by
  have hbody : loopsOf (body ++ [{ opcode := .last, p1 := cursor, p2 := (start + 1 : Nat) }]) = loopsOf body :=
    (loopsOf_append _ _).trans (List.append_nil _)
  exact congrArg (some cursor :: ·) hbody

theorem loopsOf_bodyAt {guards : List (List Insn)} {load : List Insn} {emit : Insn} (start : Nat)
    (hguards : ∀ g ∈ guards, Plain cursors g) (hload : Plain cursors load) (hemit : Plain cursors [emit]) :
    loopsOf (bodyAt start guards load emit) = [] := by
  rw [bodyAt, bodyCode, loopsOf_append, loopsOf_append, hload.loopsOf_eq, hemit.loopsOf_eq, List.append_nil, List.append_nil]
  refine List.filterMap_eq_nil_iff.mpr fun insn hmem => ?_
  obtain ⟨g, hg, hmem⟩ := List.mem_flatMap.mp hmem
  rcases List.mem_append.mp hmem with hmem | hmem
  · exact Insn.loops_of_jump (hguards g hg insn hmem).2.1
  · rw [List.mem_singleton.mp hmem]
    rfl

/-- One thing is gone through in one loop. -/
theorem loops_unique (hnodup : (loopsOf code).Nodup) {i j : Nat} {a b : Insn} {what : Option Int} (ha : code[i]? = some a)
    (hb : code[j]? = some b) (hwa : a.loops = some what) (hwb : b.loops = some what) : i = j := by
  obtain ⟨hi, rfl⟩ := List.getElem?_eq_some_iff.mp ha
  obtain ⟨hj, rfl⟩ := List.getElem?_eq_some_iff.mp hb
  have hpair := List.pairwise_iff_getElem.mp (List.pairwise_filterMap.mp hnodup)
  rcases Nat.lt_trichotomy i j with hlt | heq | hgt
  · exact absurd rfl (hpair i j hi hj hlt what hwa what hwb)
  · exact heq
  · exact absurd rfl (hpair j i hj hi hgt what hwb what hwa)

end

/-! ## Pieces of code -/

/-- The loop over the buffer, at address `start`. -/
def drainCode (start : Nat) (n : Int) : List Insn :=
  [{ opcode := .bufferRewind, p2 := (start + 4 : Nat) }, { opcode := .bufferNext, p2 := (start + 4 : Nat) },
    { opcode := .resultRow, p1 := n }, { opcode := .goto, p2 := (start + 1 : Nat) }]

/-- Code at an address: its jumps stay in it, it does not halt, and it uses some cursors only. -/
structure Piece (cursors : List Int) (start : Nat) (code : List Insn) : Prop where
  closed : flow.Closed Heads start code
  running : ∀ insn ∈ code, insn.opcode ≠ .halt
  cursors : ∀ insn ∈ code, ∀ c, insn.uses = some c → c ∈ cursors

section
variable {cursors : List Int} {start : Nat} {p q : List Insn}

theorem Plain.straight (h : Plain cursors p) : flow.Straight p := fun insn hmem => ⟨(h insn hmem).1, (h insn hmem).2.1⟩

theorem Plain.piece (h : Plain cursors p) : Piece cursors start p where
  closed := h.straight.closed
  running := fun insn hmem hhalt => by
    have hfalls := (h insn hmem).1
    unfold Insn.falls at hfalls
    rw [hhalt] at hfalls
    cases hfalls
  cursors := fun insn hmem => (h insn hmem).2.2

theorem Piece.append (hp : Piece cursors start p) (hq : Piece cursors (start + p.length) q) :
    Piece cursors start (p ++ q) where
  closed := hp.closed.append hq.closed
  running := List.forall_mem_append.mpr ⟨hp.running, hq.running⟩
  cursors := List.forall_mem_append.mpr ⟨hp.cursors, hq.cursors⟩

theorem Piece.guard (hp : Piece cursors start p) (r : Int) (hq : Piece cursors (start + p.length + 1) q) :
    Piece cursors start (p ++ { opcode := .ifNot, p1 := r, p2 := (start + p.length + 1 + q.length : Nat) } :: q) where
  closed := hp.closed.guard (congrArg some (Vdbe.address_nat _)) hq.closed
  running := List.forall_mem_append.mpr ⟨hp.running, List.forall_mem_cons.mpr ⟨nofun, hq.running⟩⟩
  cursors := List.forall_mem_append.mpr ⟨hp.cursors, List.forall_mem_cons.mpr ⟨nofun, hq.cursors⟩⟩

theorem Piece.loop {cursor : Int} (hcursor : cursor ∈ cursors) (hp : Piece cursors (start + 1) p) :
    Piece cursors start (loopCode start cursor p) where
  closed := by
    refine Control.Closed.loop (fun t ht => ?_) hp.closed (fun t ht => ?_) (.inl ⟨rfl, rfl, rfl⟩)
    · exact (Option.some.inj ht).symm.trans (Vdbe.address_nat _)
    · exact (Option.some.inj ht).symm.trans (Vdbe.address_nat _)
  running := List.forall_mem_cons.mpr ⟨nofun, List.forall_mem_append.mpr
    ⟨hp.running, List.forall_mem_singleton.mpr nofun⟩⟩
  cursors := List.forall_mem_cons.mpr ⟨fun _ hc => Option.some.inj hc ▸ hcursor, List.forall_mem_append.mpr
    ⟨hp.cursors, List.forall_mem_singleton.mpr fun _ hc => Option.some.inj hc ▸ hcursor⟩⟩

/-- The conditions of a row, what is loaded of it and what is done with it. -/
theorem Piece.body {load : List Insn} {emit : Insn} (hload : Plain cursors load) (hemit : Plain cursors [emit]) :
    ∀ (guards : List (List Insn)) (start : Nat), (∀ g ∈ guards, Plain cursors g) →
      Piece cursors start (bodyAt start guards load emit)
  | [], start, _ => (hload.append hemit).piece
  | g :: guards, start, hguards => by
    have hrest := Piece.body hload hemit guards (start + g.length + 1) fun g' hg' => hguards g' (List.mem_cons_of_mem _ hg')
    have hlen : start + (bodyCode 0 (g :: guards) load emit).length =
        start + g.length + 1 + (bodyCode 0 guards load emit).length := by
      simp only [bodyCode, List.flatMap_cons, List.length_append, guardCode_length]
      omega
    have hcode : bodyAt start (g :: guards) load emit =
        g ++ { opcode := .ifNot, p1 := 1, p2 := (start + g.length + 1 +
          (bodyAt (start + g.length + 1) guards load emit).length : Nat) } ::
          bodyAt (start + g.length + 1) guards load emit := by
      rw [bodyAt_length, bodyAt, hlen, bodyAt]
      simp [bodyCode, guardCode]
    rw [hcode]
    exact (hguards g List.mem_cons_self).piece.guard 1 hrest

theorem Piece.buffer (n : Int) : Piece cursors start (drainCode start n) where
  closed := fun i a t hi ht => by
    have hlen : (drainCode start n).length = 4 := rfl
    rw [hlen]
    rcases i with _ | _ | _ | _ | i
    · cases hi
      obtain rfl := (Option.some.inj ht).symm.trans (address_nat _)
      exact .inl ⟨by omega, by omega⟩
    · cases hi
      obtain rfl := (Option.some.inj ht).symm.trans (address_nat _)
      exact .inl ⟨by omega, by omega⟩
    · cases hi
      cases ht
    · cases hi
      obtain rfl := (Option.some.inj ht).symm.trans (address_nat _)
      exact .inr ⟨0, _, by omega, rfl, rfl, .inr ⟨rfl, rfl⟩⟩
    · cases hi
  running := by simp [drainCode]
  cursors := by simp [drainCode, Insn.uses]

end

/-! ## Programs -/

/-- Where the loops of a program are: each cursor is rewound at one place, and the buffer is
not changed behind the `BufferRewind` but by its `BufferNext`, which goes to `Halt`. -/
structure Looped (code : List Insn) : Prop where
  scans : ∀ (i j : Nat) (a b : Insn), code[i]? = some a → code[j]? = some b → a.opcode = .rewind →
    b.opcode = .rewind → a.p1 = b.p1 → i = j
  buffer : ∀ (k : Nat) (a : Insn), code[k]? = some a → a.opcode = .bufferRewind →
    (∃ next e, code[k + 1]? = some next ∧ next.opcode = .bufferNext ∧ address next.p2 = e ∧
      code[e]? = some { opcode := .halt }) ∧
    ∀ (j : Nat) (b : Insn), k < j → code[j]? = some b → b.opcode.buffers = true → j = k + 1

/-- A program opens its tables, then comes code whose jumps stay in it, and `Halt`. -/
structure Laid (code opening body : List Insn) : Prop where
  whole : code = opening ++ (body ++ [{ opcode := .halt }])
  front : Plain [] opening
  piece : Piece (opening.filterMap Insn.opens) opening.length body
  looped : Looped code

theorem Insn.loops_rewind {insn : Insn} (h : insn.opcode = .rewind) : insn.loops = some (some insn.p1) := by
  unfold Insn.loops
  rw [h]

theorem Insn.loops_buffer {insn : Insn} (h : insn.opcode = .bufferRewind) : insn.loops = some none := by
  unfold Insn.loops
  rw [h]

/-- Loops over different cursors. -/
theorem Looped.halt {front : List Insn} (hnodup : (loopsOf front).Nodup) (hnone : none ∉ loopsOf front) :
    Looped (front ++ [{ opcode := .halt }]) := by
  have heq : loopsOf (front ++ [{ opcode := .halt }]) = loopsOf front := (loopsOf_append _ _).trans (List.append_nil _)
  constructor
  · intro i j a b ha hb harew hbrew hp
    refine loops_unique (heq ▸ hnodup) ha hb (Insn.loops_rewind harew) ?_
    rw [Insn.loops_rewind hbrew, hp]
  · intro k a ha hrew
    refine absurd ?_ hnone
    rw [← heq]
    exact List.mem_filterMap.mpr ⟨a, List.mem_of_getElem? ha, Insn.loops_buffer hrew⟩

/-- Loops over different cursors, and behind them the loop over the buffer. -/
theorem Looped.results {front : List Insn} (hnodup : (loopsOf front).Nodup) (hnone : none ∉ loopsOf front) (n : Int) :
    Looped (front ++ (drainCode front.length n ++ [{ opcode := .halt }])) := by
  have heq : loopsOf (front ++ (drainCode front.length n ++ [{ opcode := .halt }])) = loopsOf front ++ [none] :=
    loopsOf_append _ _
  have hunique : (loopsOf (front ++ (drainCode front.length n ++ [{ opcode := .halt }]))).Nodup := by
    rw [heq]
    exact List.nodup_append.mpr ⟨hnodup, List.nodup_singleton _, fun x hx y hy hxy =>
      hnone (List.mem_singleton.mp hy ▸ hxy ▸ hx)⟩
  have hat : ∀ i, (front ++ (drainCode front.length n ++ [{ opcode := .halt }]))[front.length + i]? =
      (drainCode front.length n ++ [{ opcode := .halt }])[i]? := fun i => by
    rw [List.getElem?_append_right (Nat.le_add_right _ _), Nat.add_sub_cancel_left]
  constructor
  · intro i j a b ha hb harew hbrew hp
    refine loops_unique hunique ha hb (Insn.loops_rewind harew) ?_
    rw [Insn.loops_rewind hbrew, hp]
  · intro k a ha hrew
    obtain rfl := loops_unique hunique ha (hat 0) (Insn.loops_buffer hrew) rfl
    refine ⟨⟨_, _, hat 1, rfl, address_nat _, hat 4⟩, fun j b hlt hb hbuffers => ?_⟩
    obtain ⟨i, rfl⟩ := Nat.exists_eq_add_of_lt hlt
    rw [Nat.add_assoc, Nat.add_zero, hat] at hb
    rcases i with _ | _ | _ | _ | i
    · rfl
    · cases hb
      cases hbuffers
    · cases hb
      cases hbuffers
    · cases hb
      cases hbuffers
    · cases hb

/-- `Halt` behind code that rewinds no cursor. -/
theorem Looped.straight {opening body : List Insn} {cursors : List Int} (h : Plain [] opening) (h' : Plain cursors body) :
    Looped (opening ++ (body ++ [{ opcode := .halt }])) := by
  have heq : loopsOf (opening ++ body) = [] := by rw [loopsOf_append, h.loopsOf_eq, h'.loopsOf_eq, List.append_nil]
  rw [← List.append_assoc]
  refine .halt ?_ ?_
  · rw [heq]
    exact List.nodup_nil
  · rw [heq]
    exact List.not_mem_nil

/-- `Halt` at the end of code without jumps. -/
theorem Laid.straight {opening body : List Insn} (h : Plain [] opening) (h' : Plain (opening.filterMap Insn.opens) body) :
    Laid (opening ++ (body ++ [{ opcode := .halt }])) opening body where
  whole := rfl
  front := h
  piece := h'.piece
  looped := .straight h h'

/-! ### Changes of a table -/

/-- The condition and the change of a row, at address `start`. -/
def changeBody (start : Nat) (table : Schema.Table) (whereClause : Option Expr) (change : List Insn) : List Insn :=
  match whereClause with
  | some w =>
    let pred := compileWhereExpr w table 0 0
    pred ++ { opcode := .ifNot, p1 := 0, p2 := (start + pred.length + 1 + change.length : Nat) } :: change
  | none => change

theorem compileChange_code (nReg : Nat) (name : String) (table : Schema.Table) (w : Option Expr) (change : List Insn) :
    (compileChange nReg name table w change).insns =
      openForWrite name ++ (loopCode 3 0 (changeBody 4 table w change) ++ [{ opcode := .halt }]) := by
  obtain ⟨top, htop⟩ : ∃ top, { Program.new with nReg := nReg }.emitAll (openForWrite name) = top := ⟨_, rfl⟩
  have hhere : top.here = 3 := htop ▸ rfl
  have hinsns : top.insns = openForWrite name := htop ▸ rfl
  obtain ⟨opened, hopened⟩ : ∃ opened, top.emit { opcode := .rewind } = opened := ⟨_, rfl⟩
  have hstart : opened.here = 4 := by
    rw [← hopened, Program.emit, Program.here_emitAll, hhere]
    rfl
  have hloop : ∀ body, ((((opened.emitAll body).emit { opcode := .last, p2 := (3 + 1 : Nat) }).patchP2 3
      ((opened.emitAll body).emit { opcode := .last, p2 := (3 + 1 : Nat) }).here).emit { opcode := .halt }).insns =
      openForWrite name ++ (loopCode 3 0 body ++ [{ opcode := .halt }]) := fun body => by
    have hend : ((opened.emitAll body).emit { opcode := .last, p2 := (3 + 1 : Nat) }).here = 3 + body.length + 2 := by
      rw [Program.emit, Program.here_emitAll, Program.here_emitAll, hstart, List.length_singleton]
      omega
    have hcode : (opened.emitAll body).emit { opcode := .last, p2 := (3 + 1 : Nat) } =
        top.emitAll ([] ++ { opcode := .rewind } :: (body ++ [{ opcode := .last, p2 := (3 + 1 : Nat) }])) := by
      rw [← hopened, Program.emit, Program.emit, Program.emitAll_emitAll, Program.emitAll_emitAll]
      rfl
    rw [hend, hcode, Program.patchP2_emitAll top [] _ _ hhere, Program.emit, Program.emitAll_emitAll,
      Program.emitAll_insns, hinsns]
    rfl
  unfold compileChange compileChangeWhere changeBody
  cases w with
  | none =>
    dsimp only
    rw [htop, hhere, hopened]
    exact hloop change
  | some w =>
    dsimp only
    rw [htop, hhere, hopened]
    generalize compileWhereExpr w table 0 0 = pred
    have hskip : ((opened.emitAll pred).emit { opcode := .ifNot }).emitAll change =
        opened.emitAll (pred ++ { opcode := .ifNot } :: change) := by
      rw [Program.emit, Program.emitAll_emitAll, Program.emitAll_emitAll]
      rfl
    have hat : (opened.emitAll pred).here = 4 + pred.length := by rw [Program.here_emitAll, hstart]
    have hend : (opened.emitAll (pred ++ { opcode := .ifNot } :: change)).here =
        4 + pred.length + 1 + change.length := by
      rw [Program.here_emitAll, hstart, List.length_append, List.length_cons]
      omega
    rw [hskip, hat, hend, patchOpt, Program.patchP2_emitAll opened pred change _ (by rw [hstart])]
    exact hloop _

theorem plain_openForWrite (name : String) : Plain [] (openForWrite name) := .other rfl

/-- The code of a change, where what is done with a row is straight and uses its cursor only. -/
theorem laid_change {nReg : Nat} {name : String} {table : Schema.Table} {w : Option Expr}
    {change : List Insn} (h : Plain [0] change) :
    Laid (compileChange nReg name table w change).insns (openForWrite name)
      (loopCode 3 0 (changeBody 4 table w change)) where
  whole := compileChange_code nReg name table w change
  front := plain_openForWrite name
  piece := by
    refine Piece.loop List.mem_cons_self ?_
    unfold changeBody
    cases w with
    | none => exact h.piece
    | some w => exact (valued_compileWhereExpr w table List.mem_cons_self 0).plain.piece.guard 0 h.piece
  looped := by
    have hbody : loopsOf (changeBody 4 table w change) = [] := by
      unfold changeBody
      cases w with
      | none => exact h.loopsOf_eq
      | some w =>
        refine (loopsOf_append _ _).trans ?_
        rw [(@valued_compileWhereExpr [0] w table 0 List.mem_cons_self 0).plain.loopsOf_eq]
        exact h.loopsOf_eq
    have heq : loopsOf (openForWrite name ++ loopCode 3 0 (changeBody 4 table w change)) = [some 0] := by
      rw [loopsOf_append, (plain_openForWrite name).loopsOf_eq, loopsOf_loopCode, hbody]
      rfl
    rw [compileChange_code, ← List.append_assoc]
    refine .halt ?_ ?_
    · rw [heq]
      exact List.nodup_singleton _
    · rw [heq]
      exact nofun

theorem plain_rows {name : String} {n : Nat} {rows : List (List Expr)} {codes : List (List Insn)}
    (h : List.Forall₂ (fun row code => compileRow name n row = .ok code) rows codes) :
    Plain [0] codes.flatten := by
  induction h with
  | nil => exact .nil
  | @cons row code rows codes hrow _ ih =>
    unfold compileRow at hrow
    split at hrow
    · cases hrow
    · cases hrow
      refine ((valued_compileValues 2 row).plain.append ?_).append ih
      intro insn hmem
      simp only [List.mem_cons, List.not_mem_nil, or_false] at hmem
      rcases hmem with rfl | rfl | rfl <;> simp [Insn.falls, Insn.jump, Insn.uses]

theorem plain_updateRow (update : Update) (table : Schema.Table) : Plain [0] (compileUpdateRow update table) := by
  refine Plain.append (Plain.append ?_ (valued_compileUpdate_assignments update table).plain) ?_
  · intro insn hmem
    obtain ⟨j, -, rfl⟩ := List.mem_map.mp hmem
    exact (@Valued.column [0] _ 0 _ List.mem_cons_self).plain _ List.mem_cons_self
  · intro insn hmem
    simp only [List.mem_cons, List.not_mem_nil, or_false] at hmem
    rcases hmem with rfl | rfl | rfl <;> simp [Insn.falls, Insn.jump, Insn.uses]

/-! ### Scans of a `SELECT` -/

/-- The order of the rows, where the statement has one. -/
def sortCode (select : Select) (plan : SelectPlan) : List Insn :=
  if select.orderBy.isEmpty then [] else [{ opcode := .sort, p4 := .sortKeys plan.sortKeys }]

/-- What follows the scans but for the `Halt`. -/
def resultsBody (start : Nat) (select : Select) (plan : SelectPlan) (needsBuffer : Bool) : List Insn :=
  sortCode select plan ++
    if needsBuffer then drainCode (start + (sortCode select plan).length) plan.outputWidth else []

theorem tailCode_eq (start : Nat) (select : Select) (plan : SelectPlan) (needsBuffer : Bool) :
    tailCode start select plan needsBuffer = (groupCode plan ++
      resultsBody (start + (groupCode plan).length) select plan needsBuffer) ++ [{ opcode := .halt }] := by
  simp only [tailCode, resultsCode, resultsBody, sortCode, drainCode, List.append_assoc]

theorem plain_groupCode {cursors : List Int} (plan : SelectPlan) : Plain cursors (groupCode plan) := by
  unfold groupCode
  split
  · exact .other rfl
  · exact .nil

section
variable {cursors : List Int} {select : Select} {plan : SelectPlan}

theorem plain_sortCode (select : Select) (plan : SelectPlan) : Plain cursors (sortCode select plan) := by
  unfold sortCode
  split
  · exact .nil
  · exact .other rfl

theorem Piece.results (start : Nat) (needsBuffer : Bool) :
    Piece cursors start (resultsBody start select plan needsBuffer) := by
  refine Piece.append (plain_sortCode select plan).piece ?_
  cases needsBuffer with
  | true => exact Piece.buffer _
  | false => exact Plain.nil.piece

theorem plain_emitInsn (plan : SelectPlan) (needsBuffer : Bool) : Plain cursors [emitInsn plan needsBuffer] := by
  unfold emitInsn
  split
  · exact .other rfl
  · exact .other rfl

theorem Piece.scans {joined : Bool} (hcur : (0 : Int) ∈ cursors ∧ (joined = true → (1 : Int) ∈ cursors))
    {guards : List (List Insn)} {load : List Insn} {emit : Insn} (hguards : ∀ g ∈ guards, Plain cursors g)
    (hload : Plain cursors load) (hemit : Plain cursors [emit]) (start : Nat) :
    Piece cursors start (scansCode start joined guards load emit) := by
  have hbody := fun start => Piece.body hload hemit guards start hguards
  unfold scansCode
  cases joined with
  | false => exact (hbody _).loop hcur.1
  | true => exact ((hbody _).loop (hcur.2 rfl)).loop hcur.1

end

/-! ### Every program -/

section
variable [Unicode] {schema : Schema} {prog : Program}

/-- The cursors of the tables of a FROM clause, and those the code uses. -/
theorem cursors_of_collectFrom {src : TableRef Select} {tables : List TableBinding} {join : Option JoinInfo} {n : Int}
    (h : collectFrom schema src [] none 0 = .ok (tables, join, n)) : (∀ col, cursorOf tables col ∈ tables.map (·.cursor)) ∧
      (0 : Int) ∈ tables.map (·.cursor) ∧ (1 < tables.length → (1 : Int) ∈ tables.map (·.cursor)) := by
  obtain ⟨_, rfl, hne, hcursors, -⟩ := collectFrom_cursors src h
  have hmem : ∀ i < tables.length, (i : Int) ∈ tables.map (·.cursor) := fun i hi => by
    rw [hcursors]
    exact List.mem_map.mpr ⟨i, List.mem_range.mpr hi, Int.zero_add _⟩
  have hzero := hmem 0 (List.length_pos_iff.mpr hne)
  refine ⟨fun col => ?_, hzero, hmem 1⟩
  unfold cursorOf
  cases ht : tables[col.tableIdx]? with
  | none => exact hzero
  | some tb => exact List.mem_map_of_mem (List.mem_of_getElem? ht)

omit [Unicode] in
theorem filterMap_opens (tables : List TableBinding) :
    (({ opcode := .init, p2 := 1 } :: openCode tables).filterMap Insn.opens) = tables.map (·.cursor) := by
  rw [List.filterMap_cons_none rfl, openCode, List.filterMap_map]
  induction tables with
  | nil => rfl
  | cons tb tables ih => exact congrArg (tb.cursor :: ·) ih

theorem buildSelectPlan_width {select : Select} {tables : List TableBinding} {plan : SelectPlan}
    (h : buildSelectPlan select schema tables = .ok plan) : plan.rowWidth = plan.rowSources.length := by
  unfold buildSelectPlan at h
  obtain ⟨⟨sources, spec?⟩, -, h⟩ := Res.bind_eq_ok.mp h
  obtain ⟨sort, -, h⟩ := Res.bind_eq_ok.mp h
  cases h
  rfl

/-- What the program of a `SELECT` with scans is put together of. -/
structure ScanCode (select : Select) (schema : Schema) where
  tables : List TableBinding
  plan : SelectPlan
  guards : List (List Insn)
  cursor : ∀ col, cursorOf tables col ∈ tables.map (·.cursor)
  zero : (0 : Int) ∈ tables.map (·.cursor)
  one : 1 < tables.length → (1 : Int) ∈ tables.map (·.cursor)
  guard : ∀ g ∈ guards, ∃ e, g = compilePred e schema tables 1
  width : plan.rowWidth = plan.rowSources.length

namespace ScanCode

variable {select : Select} (c : ScanCode select schema)

/-- What is loaded of a row. -/
def load : List Insn := loadSources c.tables schema 0 c.plan.rowSources

/-- What is done with it. -/
def emit : Insn := emitInsn c.plan (needsBuffer select c.plan)

/-- The scans, behind the opcodes that open the tables. -/
def scans : List Insn := scansCode (c.tables.length + 1) (1 < c.tables.length) c.guards c.load c.emit

/-- The whole program. -/
def code : List Insn := ({ opcode := .init, p2 := 1 } :: openCode c.tables) ++
  (c.scans ++ tailCode (c.tables.length + 1 + c.scans.length) select c.plan (needsBuffer select c.plan))

theorem valued_guard {g : List Insn} (hg : g ∈ c.guards) : Valued (c.tables.map (·.cursor)) 1 g := by
  obtain ⟨e, rfl⟩ := c.guard g hg
  exact valued_compilePred c.cursor e 1

theorem valued_load : Valued (c.tables.map (·.cursor)) 0 c.load := valued_loadSources c.cursor 0 c.plan.rowSources

end ScanCode

/-- The program of a `SELECT`: it counts the rows of a table, or scans one or two tables. -/
theorem select_cases {select : Select} (h : compileSelect select schema = .ok prog) :
    (∃ cursor name, prog = { Program.new with readOnly := true, nReg := 8, insns := [{ opcode := .init, p2 := 1 },
      { opcode := .openRead, p1 := cursor, p4 := .string name }, { opcode := .count, p2 := cursor },
      { opcode := .resultRow, p1 := 1 }, { opcode := .halt }] }) ∨
    ∃ c : ScanCode select schema, prog.insns = c.code := by
  cases hsrc : select.from with
  | none =>
    unfold compileSelect at h
    rw [hsrc] at h
    cases h
  | some src =>
    cases hcount : simpleCountStar select src with
    | some cursor =>
      unfold compileSelect at h
      rw [hsrc] at h
      simp only [hcount] at h
      unfold compileSimpleCount at h
      cases src with
      | table name rename =>
        dsimp only at h
        cases ht : schema.table name with
        | none =>
          rw [ht] at h
          cases h
        | some t =>
          rw [ht] at h
          cases h
          exact .inl ⟨_, _, rfl⟩
      | subquery | join => cases h
    | none =>
      obtain ⟨tables, join, n, plan, guards, hcollect, hplan, hguards, rfl⟩ := compileSelect_layout hsrc hcount h
      obtain ⟨hcur, hzero, hone⟩ := cursors_of_collectFrom hcollect
      exact .inr ⟨⟨tables, plan, guards, hcur, hzero, hone, hguards, buildSelectPlan_width hplan⟩, rfl⟩

omit [Unicode] in
/-- The loops of a `SELECT` on different cursors. -/
theorem loopsOf_scans {tables : List TableBinding} {joined : Bool} {cursors : List Int} {guards : List (List Insn)}
    {load : List Insn} {emit : Insn} (hguards : ∀ g ∈ guards, Plain cursors g) (hload : Plain cursors load)
    (hemit : Plain cursors [emit]) (start : Nat) :
    loopsOf (({ opcode := .init, p2 := 1 } :: openCode tables) ++ scansCode start joined guards load emit) =
      if joined then [some 0, some 1] else [some 0] := by
  have hopen : loopsOf ({ opcode := .init, p2 := 1 } :: openCode tables) = [] := by
    refine List.filterMap_eq_nil_iff.mpr fun insn hmem => ?_
    rcases List.mem_cons.mp hmem with rfl | hmem
    · rfl
    · obtain ⟨tb, -, rfl⟩ := List.mem_map.mp hmem
      rfl
  rw [loopsOf_append, hopen, List.nil_append, scansCode]
  cases joined with
  | false => exact (loopsOf_loopCode _ _ _).trans (by rw [loopsOf_bodyAt _ hguards hload hemit]; rfl)
  | true =>
    refine (loopsOf_loopCode _ _ _).trans ?_
    rw [loopsOf_loopCode, loopsOf_bodyAt _ hguards hload hemit]
    rfl

omit [Unicode] in
theorem looped_scans {front : List Insn} {joined : Bool} (h : loopsOf front = if joined then [some 0, some 1] else [some 0])
    (select : Select) (plan : SelectPlan) (buffered : Bool) :
    Looped (front ++ tailCode front.length select plan buffered) := by
  have hplain : Plain [] (groupCode plan ++ sortCode select plan) := (plain_groupCode plan).append (plain_sortCode select plan)
  have heq : loopsOf (front ++ (groupCode plan ++ sortCode select plan)) = if joined then [some 0, some 1] else [some 0] := by
    rw [loopsOf_append, hplain.loopsOf_eq, List.append_nil, h]
  have hnodup : (loopsOf (front ++ (groupCode plan ++ sortCode select plan))).Nodup := by
    rw [heq]
    cases joined <;> decide
  have hnone : none ∉ loopsOf (front ++ (groupCode plan ++ sortCode select plan)) := by
    rw [heq]
    cases joined <;> decide
  have hcode : front ++ tailCode front.length select plan buffered = (front ++ (groupCode plan ++ sortCode select plan)) ++
      ((if buffered then drainCode (front ++ (groupCode plan ++ sortCode select plan)).length plan.outputWidth else []) ++
        [{ opcode := .halt }]) := by
    rw [tailCode_eq, resultsBody, List.length_append, List.length_append, ← Nat.add_assoc]
    simp only [List.append_assoc]
  rw [hcode]
  cases buffered with
  | false => exact .halt hnodup hnone
  | true => exact .results hnodup hnone _

theorem ScanCode.laid {select : Select} (c : ScanCode select schema) : ∃ opening body, Laid c.code opening body := by
  have hguards : ∀ g ∈ c.guards, Plain (c.tables.map (·.cursor)) g := fun g hg => (c.valued_guard hg).plain
  have hemit : Plain (c.tables.map (·.cursor)) [c.emit] := plain_emitInsn c.plan _
  have hlen : (({ opcode := .init, p2 := 1 } : Insn) :: openCode c.tables).length = c.tables.length + 1 := by
    rw [List.length_cons, openCode, List.length_map]
  have hloops := @loopsOf_scans c.tables (1 < c.tables.length) _ _ _ _ hguards c.valued_load.plain hemit (c.tables.length + 1)
  have hpiece := Piece.scans ⟨c.zero, fun hj => c.one (of_decide_eq_true hj)⟩ hguards c.valued_load.plain hemit
    (c.tables.length + 1)
  refine ⟨{ opcode := .init, p2 := 1 } :: openCode c.tables, c.scans ++ (groupCode c.plan ++
    resultsBody (c.tables.length + 1 + c.scans.length + (groupCode c.plan).length) select c.plan
      (needsBuffer select c.plan)), ?_, ?_, ?_, ?_⟩
  · rw [code, tailCode_eq, ← List.append_assoc c.scans _ [_]]
  · refine @Plain.append _ [_] _ (.other rfl) fun insn hmem => ?_
    obtain ⟨tb, -, rfl⟩ := List.mem_map.mp hmem
    exact ⟨rfl, rfl, by simp [Insn.uses]⟩
  · rw [filterMap_opens, hlen]
    exact hpiece.append ((plain_groupCode c.plan).piece.append (Piece.results _ _))
  · have hlooped := looped_scans hloops select c.plan (needsBuffer select c.plan)
    rwa [List.length_append, hlen, List.append_assoc] at hlooped

theorem laid_select {select : Select} (h : compileSelect select schema = .ok prog) :
    ∃ opening body, Laid prog.insns opening body := by
  rcases select_cases h with ⟨cursor, name, rfl⟩ | ⟨c, hcode⟩
  · refine ⟨[{ opcode := .init, p2 := 1 }, { opcode := .openRead, p1 := cursor, p4 := .string name }],
      [{ opcode := .count, p2 := cursor }, { opcode := .resultRow, p1 := 1 }], ?_⟩
    refine @Laid.straight [_, _] [_, _] (.other rfl) ?_
    intro insn hmem
    simp only [List.mem_cons, List.not_mem_nil, or_false] at hmem
    rcases hmem with rfl | rfl <;> simp [Insn.falls, Insn.jump, Insn.uses, Insn.opens]
  · rw [hcode]
    exact c.laid

theorem compile_laid {sql : Parsed} (h : compile sql schema = .ok prog) : ∃ opening body, Laid prog.insns opening body := by
  cases sql with
  | error e => cases h
  | ok stmt =>
    cases stmt with
    | select s => exact laid_select h
    | insert i =>
      have hinsert : compileInsert i schema = .ok prog := h
      unfold compileInsert at hinsert
      split at hinsert
      · cases hinsert
      · obtain ⟨_, -, hinsert⟩ := Res.bind_eq_ok.mp hinsert
        obtain ⟨rows, hrows, hinsert⟩ := Res.bind_eq_ok.mp hinsert
        cases hinsert
        refine ⟨openForWrite i.table, rows.flatten, ?_⟩
        dsimp only
        rw [List.append_assoc]
        exact .straight (plain_openForWrite _) (plain_rows (Res.mapM_eq_ok.mp hrows))
    | update u =>
      have hupdate : compileUpdate u schema = .ok prog := h
      unfold compileUpdate at hupdate
      split at hupdate
      · cases hupdate
      · obtain ⟨_, -, hupdate⟩ := Res.bind_eq_ok.mp hupdate
        cases hupdate
        exact ⟨_, _, laid_change (plain_updateRow u _)⟩
    | delete d =>
      have hdelete : compileDelete d schema = .ok prog := h
      unfold compileDelete at hdelete
      split at hdelete
      · cases hdelete
      · cases hdelete
        exact ⟨_, _, laid_change (.single rfl rfl fun _ hc => Option.some.inj hc ▸ List.mem_cons_self)⟩
    | createTable c =>
      cases h
      exact ⟨_, _, @Laid.straight [_, _, _] [] (.other rfl) .nil⟩
    | dropTable d =>
      cases h
      exact ⟨_, _, @Laid.straight [_] [] (.other rfl) .nil⟩
    | pragma p =>
      cases h
      exact ⟨_, _, @Laid.straight [_] [] (.other rfl) .nil⟩
    | begin =>
      cases h
      exact ⟨_, _, @Laid.straight [_] [] (.other rfl) .nil⟩
    | createIndex c =>
      cases h
      exact ⟨_, _, Laid.straight .nil .nil⟩
    | commit =>
      cases h
      exact ⟨_, _, Laid.straight .nil .nil⟩
    | rollback =>
      cases h
      exact ⟨_, _, Laid.straight .nil .nil⟩

end

end Sqllite
