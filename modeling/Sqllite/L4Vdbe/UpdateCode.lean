import Sqllite.L4Vdbe.CountStar
import Sqllite.L4Vdbe.InsertCode

/-!
# The code of an `UPDATE`

The code of a row loads the old values into the registers from 2 on, and each assignment
overwrites its column there. The operands of an expression go to the registers behind its
own, so to those of the columns behind the assigned one: the record is made of what was
placed last in each register.

* `rounds_expr`: what the code of an expression leaves in every register.
* `update_row_iff`: which record an `UPDATE` writes for a row.
-/
namespace Sqllite
open Lib Lib.Run Lib.Span Lib.Machine

/-- What is placed in a register: a column of the old row, or an expression. -/
inductive Source where
  | column (i : Nat)
  | expr (e : Expr)

/-- What arrives, where register 0 holds `z`. -/
def Source.worth (z : Value) (row : List Value) : Source → Result Value
  | .column i => .ok (cell row (some i))
  | .expr e => e.computedOn z

/-- What the code of an expression places, and where: the operands, then the result. -/
def Expr.places : Expr → Nat → List (Nat × Source)
  | .binaryOp op l r, reg =>
    l.places (reg + 1) ++ r.places (reg + 2) ++ [(reg, .expr (.binaryOp op l r))]
  | .unaryOp op e, reg => e.places (reg + 1) ++ [(reg, .expr (.unaryOp op e))]
  | e, reg => [(reg, .expr e)]

/-- What is placed last in register `r`. -/
def lastPlaced (places : List (Nat × Source)) (r : Nat) : Option Source :=
  (places.reverse.find? (·.1 = r)).map (·.2)

section
variable {places places' : List (Nat × Source)} {r j : Nat} {src : Source}

theorem lastPlaced_append : lastPlaced (places ++ places') r = (lastPlaced places' r).or (lastPlaced places r) := by
  unfold lastPlaced
  rw [List.reverse_append, List.find?_append, Option.map_or]

theorem lastPlaced_one : lastPlaced [(r, src)] j = if r = j then some src else none := by
  unfold lastPlaced
  rw [List.reverse_singleton, List.find?_singleton]
  by_cases h : r = j
  · rw [if_pos (by simpa using h), if_pos h]
    rfl
  · rw [if_neg (by simpa using h), if_neg h]
    rfl

theorem lastPlaced_none (h : ∀ w ∈ places, w.1 ≠ r) : lastPlaced places r = none := by
  unfold lastPlaced
  rw [Option.map_eq_none_iff, List.find?_eq_none]
  intro w hw
  simpa using h w (List.mem_reverse.mp hw)

end

namespace Expr

/-- Nothing below its register. -/
theorem le_places (e : Expr) : ∀ {r : Nat}, ∀ w ∈ e.places r, r ≤ w.1 := by
  induction e using Expr.computed.induct with
  | case4 op left right ihl ihr =>
    intro r w hw
    rw [places, List.mem_append, List.mem_append, List.mem_singleton] at hw
    rcases hw with (hw | hw) | rfl
    · exact Nat.le_of_succ_le (ihl w hw)
    · exact Nat.le_trans (Nat.le_add_right r 2) (ihr w hw)
    · exact Nat.le_refl r
  | case5 op e ih =>
    intro r w hw
    rw [places, List.mem_append, List.mem_singleton] at hw
    rcases hw with hw | rfl
    · exact Nat.le_of_succ_le (ih w hw)
    · exact Nat.le_refl r
  | case1 | case2 | case3 =>
    intro r w hw
    rw [places, List.mem_singleton] at hw
    · exact Nat.le_of_eq (congrArg Prod.fst hw.symm)
    all_goals
      intros
      contradiction
  | case6 e h1 h2 h3 h4 h5 =>
    intro r w hw
    rw [places, List.mem_singleton] at hw
    · exact Nat.le_of_eq (congrArg Prod.fst hw.symm)
    · exact fun op l r h => h4 op l r h
    · exact fun op e h => h5 op e h

/-- The result last. -/
theorem lastPlaced_places (e : Expr) (r : Nat) : lastPlaced (e.places r) r = some (.expr e) := by
  have hone : ∀ {src : Source} {places : List (Nat × Source)}, lastPlaced (places ++ [(r, src)]) r = some src := by
    intro src places
    rw [lastPlaced_append, lastPlaced_one, if_pos rfl]
    rfl
  cases e with
  | binaryOp op left right => exact hone
  | unaryOp op e => exact hone
  | _ => exact lastPlaced_one.trans (if_pos rfl)

end Expr

namespace Vdbe

/-- Each register has what was placed there last, the others are as they were. -/
def Filled (z : Value) (row : List Value) (places : List (Nat × Source)) (regs regs' : List Value) : Prop :=
  ∀ j, match lastPlaced places j with
    | some src => src.worth z row = .ok (regAt regs' j)
    | none => regAt regs' j = regAt regs j

section
variable {z : Value} {row : List Value} {places places' : List (Nat × Source)} {regs regs' regs'' : List Value}

theorem Filled.some {src : Source} {j : Nat} (h : Filled z row places regs regs')
    (hj : lastPlaced places j = some src) : src.worth z row = .ok (regAt regs' j) := by
  have hat := h j
  rwa [hj] at hat

theorem Filled.none {j : Nat} (h : Filled z row places regs regs') (hj : lastPlaced places j = none) :
    regAt regs' j = regAt regs j := by
  have hat := h j
  rwa [hj] at hat

theorem Filled.append (h : Filled z row places regs regs') (h' : Filled z row places' regs' regs'') :
    Filled z row (places ++ places') regs regs'' := by
  intro j
  rw [lastPlaced_append]
  cases hlast : lastPlaced places' j with
  | some src => exact h'.some hlast
  | none =>
    have hkept := h'.none hlast
    have hat := h j
    rw [Option.none_or, hkept]
    exact hat

theorem Filled.one {r : Nat} {src : Source} {v : Value} (h : src.worth z row = .ok v) (regs : List Value) :
    Filled z row [(r, src)] regs (putReg regs r v) := by
  intro j
  rw [lastPlaced_one]
  by_cases hr : r = j
  · rw [if_pos hr, ← hr, regAt_putReg_self]
    exact h
  · rw [if_neg hr]
    exact regAt_putReg_ne _ _ (Ne.symm hr)

/-- The first register, where nothing is placed. -/
theorem Filled.first (h : Filled z row places regs regs') (hp : ∀ w ∈ places, 1 ≤ w.1) :
    regAt regs' 0 = regAt regs 0 :=
  h.none (lastPlaced_none fun w hw => Nat.ne_of_gt (hp w hw))

end

section
variable [Unicode] {s t : Machine} {insn : Insn} {z : Value} {row : List Value}

/-- An instruction that stores a value, or fails. -/
theorem rounds_store {c : Result Value} {r : Nat} (hinsn : s.program.insns[s.pc]? = some insn)
    (hex : ∀ fuel, execute fuel insn (s.moveTo (s.pc + 1) s.regs) = (lift c >>= answer r) (s.moveTo (s.pc + 1) s.regs))
    (h : Rounds round 1 s t) : ∃ v, c = .ok v ∧ t = s.moveTo (s.pc + 1) (putReg s.regs r v) := by
  obtain ⟨fuel, u, hround, rfl⟩ := h
  refine (round_continues hinsn (R := fun t => ∃ v, c = .ok v ∧ t = s.moveTo (s.pc + 1) (putReg s.regs r v))
    (fun fuel result t hrun => ?_) fuel none u hround).2
  rw [hex] at hrun
  obtain ⟨v, hv, hrun⟩ := lift_bind_eq_ok.mp hrun
  rw [answer_nat] at hrun
  cases hrun
  exact ⟨rfl, v, hv, rfl⟩

/-- The same, for a piece of code that is one instruction. -/
theorem rounds_one {src : Source} {r : Nat} (hinsn : s.program.insns[s.pc]? = some insn)
    (hex : ∀ fuel, execute fuel insn (s.moveTo (s.pc + 1) s.regs) =
      (lift (src.worth z row) >>= answer r) (s.moveTo (s.pc + 1) s.regs))
    (h : Rounds round 1 s t) :
    ∃ regs, t = s.moveTo (s.pc + 1) regs ∧ Filled z row [(r, src)] s.regs regs := by
  obtain ⟨v, hv, rfl⟩ := rounds_store hinsn hex h
  exact ⟨_, rfl, .one hv s.regs⟩

/-- The code of an expression: induction on the expression. -/
theorem rounds_expr (e : Expr) : ∀ {s t : Machine} {r : Nat}, 1 ≤ r → regAt s.regs 0 = z →
    Placed s.program.insns s.pc (compileExpr e r) → Rounds round (compileExpr e r).length s t →
    ∃ regs, t = s.moveTo (s.pc + (compileExpr e r).length) regs ∧ Filled z row (e.places r) s.regs regs := by
  induction e using Expr.computed.induct with
  | case1 n | case2 x | case3 text => exact fun _ _ hp h => rounds_one hp.head (fun fuel => rfl) h
  | case4 op left right ihl ihr =>
    intro s t r hr h0 hp h
    unfold compileExpr at hp h ⊢
    rw [List.append_assoc] at hp h ⊢
    rw [List.length_append, List.length_append] at h
    obtain ⟨u, hl, h⟩ := h.split
    obtain ⟨v, hrt, h⟩ := h.split
    obtain ⟨regs₁, rfl, hfill₁⟩ := ihl (r := r + 1) (Nat.le_add_left 1 r) h0 hp.left hl
    have hz₁ : regAt regs₁ 0 = z :=
      (hfill₁.first fun w hw => Nat.le_trans (Nat.le_add_left 1 r) (left.le_places w hw)).trans h0
    have hp' := hp.right
    obtain ⟨regs₂, rfl, hfill₂⟩ := ihr (s := s.moveTo (s.pc + (compileExpr left (r + 1 : Nat)).length) regs₁)
      (r := r + 2) (Nat.le_add_left 1 (r + 1)) hz₁ hp'.left hrt
    let s₂ : Machine := s.moveTo (s.pc + (compileExpr left (r + 1 : Nat)).length +
      (compileExpr right (r + 2 : Nat)).length) regs₂
    have hleft : left.computedOn z = .ok (regAt regs₂ (r + 1)) := by
      have hkept := hfill₂.none (lastPlaced_none fun w hw => Nat.ne_of_gt (right.le_places w hw) : lastPlaced _ (r + 1) = none)
      rw [hkept]
      exact hfill₁.some (left.lastPlaced_places (r + 1))
    have hright : right.computedOn z = .ok (regAt regs₂ (r + 2)) := hfill₂.some (right.lastPlaced_places (r + 2))
    have hworth : Source.worth z row (.expr (.binaryOp op left right)) =
        combined op.opcode (regAt regs₂ (r + 1)) (regAt regs₂ (r + 2)) := by
      show (left.computedOn z >>= fun a => right.computedOn z >>= combined op.opcode a) = _
      rw [hleft, hright]
      rfl
    obtain ⟨regs, rfl, hfill⟩ : ∃ regs, t = s₂.moveTo (s₂.pc + 1) regs ∧
        Filled z row [(r, .expr (.binaryOp op left right))] s₂.regs regs := rounds_one hp'.right.head (fun fuel => by
        rw [hworth, execute_binary (isBinary_opcode op)]
        have h1 : ∀ t : Machine, getReg t ((r : Int) + 1) = regAt t.regs (r + 1) := fun t => getReg_nat t (r + 1)
        have h2 : ∀ t : Machine, getReg t ((r : Int) + 2) = regAt t.regs (r + 2) := fun t => getReg_nat t (r + 2)
        dsimp only
        rw [h1, h2]
        rfl) h
    refine ⟨regs, ?_, (hfill₁.append hfill₂).append hfill⟩
    rw [List.length_append, List.length_append, ← Nat.add_assoc, ← Nat.add_assoc]
    rfl
  | case5 op e ih =>
    intro s t r hr h0 hp h
    unfold compileExpr at hp h ⊢
    rw [List.length_append] at h
    obtain ⟨u, hinner, h⟩ := h.split
    obtain ⟨regs₁, rfl, hfill₁⟩ := ih (r := r + 1) (Nat.le_add_left 1 r) h0 hp.left hinner
    have hz₁ : regAt regs₁ 0 = z :=
      (hfill₁.first fun w hw => Nat.le_trans (Nat.le_add_left 1 r) (e.le_places w hw)).trans h0
    let s₁ : Machine := s.moveTo (s.pc + (compileExpr e (r + 1 : Nat)).length) regs₁
    have hvalue : e.computedOn z = .ok (regAt regs₁ (r + 1)) := hfill₁.some (e.lastPlaced_places (r + 1))
    have hworth : Source.worth z row (.expr (.unaryOp op e)) = combined op.opcode (regAt regs₁ (r + 1)) z := by
      show (e.computedOn z >>= fun a => combined op.opcode a z) = _
      rw [hvalue]
      rfl
    obtain ⟨regs, rfl, hfill⟩ : ∃ regs, t = s₁.moveTo (s₁.pc + 1) regs ∧
        Filled z row [(r, .expr (.unaryOp op e))] s₁.regs regs := rounds_one hp.right.head (fun fuel => by
        rw [hworth, execute_binary (isBinary_unary op)]
        have h1 : ∀ t : Machine, getReg t ((r : Int) + 1) = regAt t.regs (r + 1) := fun t => getReg_nat t (r + 1)
        have h2 : ∀ t : Machine, getReg t 0 = regAt t.regs 0 := fun t => getReg_nat t 0
        dsimp only
        rw [h1, h2, Machine.moveTo_regs, Machine.moveTo_regs, hz₁]) h
    refine ⟨regs, ?_, hfill₁.append hfill⟩
    rw [List.length_append, ← Nat.add_assoc]
    rfl
  | case6 e h1 h2 h3 h4 h5 =>
    cases e with
    | integer n => exact absurd rfl (h1 n)
    | real x => exact absurd rfl (h2 x)
    | string text => exact absurd rfl (h3 text)
    | binaryOp op left right => exact absurd rfl (h4 op left right)
    | unaryOp op e => exact absurd rfl (h5 op e)
    | _ => exact fun _ _ hp h => rounds_one hp.head (fun fuel => rfl) h

end

/-! ## Rows -/

/-- The column of the old row that an assignment names. -/
def columnOf? (table : Schema.Table) : Expr → Option Nat
  | .ident name => table.columnIndex name
  | _ => none

/-- What the code of one assignment places. -/
def assignmentPlaces (table : Schema.Table) (assignment : String × Expr) : List (Nat × Source) :=
  match table.columnIndex assignment.1 with
  | none => []
  | some c =>
    match columnOf? table assignment.2 with
    | some i => [(c + 2, .column i)]
    | none => assignment.2.places (c + 2)

/-- What the code of a row places in front of the record. -/
def rowPlaces (update : Update) (table : Schema.Table) : List (Nat × Source) :=
  ((List.range table.columnCount).map fun j => (j + 2, .column j)) ++
    update.assignments.flatMap (assignmentPlaces table)

theorem OnRow.moveTo {s : Machine} {row : List Value} (h : OnRow s 0 row) (pc : Nat) (regs : List Value) :
    OnRow (s.moveTo pc regs) 0 row := h

section
variable {table : Schema.Table}

theorem compileExprWithColumns_column {e : Expr} {i : Nat} (h : columnOf? table e = some i) (r : Int) :
    compileExprWithColumns e (some table) 0 r = [{ opcode := .column, p1 := r, p3 := i }] := by
  unfold columnOf? at h
  split at h
  · unfold compileExprWithColumns
    dsimp only
    rw [h]
  · cases h

theorem compileExprWithColumns_expr {e : Expr} (h : columnOf? table e = none) (r : Int) :
    compileExprWithColumns e (some table) 0 r = compileExpr e r := by
  cases e with
  | ident name =>
    have hnone : table.columnIndex name = none := h
    unfold compileExprWithColumns
    dsimp only
    rw [hnone]
  | _ => rfl

theorem assignmentPlaces_pos (assignment : String × Expr) : ∀ w ∈ assignmentPlaces table assignment, 1 ≤ w.1 := by
  intro w hw
  unfold assignmentPlaces at hw
  split at hw
  · cases hw
  · split at hw
    · rw [List.mem_singleton.mp hw]
      exact Nat.le_add_left 1 _
    · exact Nat.le_trans (Nat.le_add_left 1 _) (assignment.2.le_places w hw)

end

section
variable [Unicode] {s t : Machine} {z : Value} {row : List Value} {table : Schema.Table}

/-- A column of the old row. -/
theorem rounds_column {r i : Nat} (hrow : OnRow s 0 row)
    (hinsn : s.program.insns[s.pc]? = some { opcode := .column, p1 := r, p3 := i }) (h : Rounds round 1 s t) :
    ∃ regs, t = s.moveTo (s.pc + 1) regs ∧ Filled z row [(r, .column i)] s.regs regs :=
  rounds_one hinsn (fun fuel => execute_column (s := s.moveTo (s.pc + 1) s.regs) hrow r i fuel) h

theorem rounds_columns : ∀ {js : List Nat} {s t : Machine}, OnRow s 0 row →
    Placed s.program.insns s.pc (js.map fun j => { opcode := .column, p1 := (j + 2 : Nat), p3 := j }) →
    Rounds round js.length s t →
    ∃ regs, t = s.moveTo (s.pc + js.length) regs ∧ Filled z row (js.map fun j => (j + 2, .column j)) s.regs regs
  | [], s, t, _, _, h => ⟨s.regs, h.symm, fun _ => rfl⟩
  | j :: js, s, t, hrow, hp, h => by
    rw [List.length_cons, Nat.add_comm] at h
    obtain ⟨u, hone, h⟩ := h.split
    obtain ⟨regs₁, rfl, hfill₁⟩ := rounds_column (z := z) hrow hp.head hone
    obtain ⟨regs, rfl, hfill⟩ := rounds_columns (s := s.moveTo (s.pc + 1) regs₁) (hrow.moveTo _ _) hp.tail h
    refine ⟨regs, ?_, hfill₁.append hfill⟩
    rw [List.length_cons, Nat.add_comm js.length, ← Nat.add_assoc]
    rfl

theorem rounds_assignment {assignment : String × Expr} (hrow : OnRow s 0 row) (h0 : regAt s.regs 0 = z)
    (hp : Placed s.program.insns s.pc (compileAssignment table assignment))
    (h : Rounds round (compileAssignment table assignment).length s t) :
    ∃ regs, t = s.moveTo (s.pc + (compileAssignment table assignment).length) regs ∧
      Filled z row (assignmentPlaces table assignment) s.regs regs := by
  unfold compileAssignment at hp h ⊢
  unfold assignmentPlaces
  cases hc : table.columnIndex assignment.1 with
  | none =>
    rw [hc] at h
    exact ⟨s.regs, h.symm, fun _ => rfl⟩
  | some c =>
    rw [hc] at hp h
    dsimp only at hp h ⊢
    cases hcol : columnOf? table assignment.2 with
    | some i =>
      rw [compileExprWithColumns_column hcol] at hp h ⊢
      exact rounds_column (r := c + 2) hrow hp.head h
    | none =>
      rw [compileExprWithColumns_expr hcol] at hp h ⊢
      exact rounds_expr (r := c + 2) assignment.2 (Nat.le_add_left 1 (c + 1)) h0 hp h

theorem rounds_assignments : ∀ {assignments : List (String × Expr)} {s t : Machine}, OnRow s 0 row →
    regAt s.regs 0 = z → Placed s.program.insns s.pc (assignments.flatMap (compileAssignment table)) →
    Rounds round (assignments.flatMap (compileAssignment table)).length s t →
    ∃ regs, t = s.moveTo (s.pc + (assignments.flatMap (compileAssignment table)).length) regs ∧
      Filled z row (assignments.flatMap (assignmentPlaces table)) s.regs regs
  | [], s, t, _, _, _, h => ⟨s.regs, h.symm, fun _ => rfl⟩
  | a :: as, s, t, hrow, h0, hp, h => by
    rw [List.flatMap_cons] at hp h ⊢
    rw [List.length_append] at h
    obtain ⟨u, hone, h⟩ := h.split
    obtain ⟨regs₁, rfl, hfill₁⟩ := rounds_assignment hrow h0 hp.left hone
    have hz₁ : regAt regs₁ 0 = z := (hfill₁.first (assignmentPlaces_pos a)).trans h0
    obtain ⟨regs, rfl, hfill⟩ := rounds_assignments (s := s.moveTo (s.pc + (compileAssignment table a).length) regs₁)
      (hrow.moveTo _ _) hz₁ hp.right h
    refine ⟨regs, ?_, hfill₁.append hfill⟩
    rw [List.length_append, ← Nat.add_assoc]
    rfl

/-- The row id goes to register 1. -/
theorem rounds_rowid (hinsn : s.program.insns[s.pc]? = some { opcode := .rowid, p1 := 1 }) (h : Rounds round 1 s t) :
    ∃ regs, t = s.moveTo (s.pc + 1) regs ∧ ∀ j ≠ 1, regAt regs j = regAt s.regs j := by
  obtain ⟨fuel, u, hround, rfl⟩ := h
  refine (round_continues hinsn (R := fun t => ∃ regs, t = s.moveTo (s.pc + 1) regs ∧
    ∀ j ≠ 1, regAt regs j = regAt s.regs j) (fun fuel result t hrun => ?_) fuel none u hround).2
  have hread : withCursor 0 (fun cs => cs.cursor.currentKey.elim (pure .continue) fun id =>
      answer 1 (.integer (Int64.ofInt id))) (s.moveTo (s.pc + 1) s.regs) = .ok result t := by
    refine Eq.trans ?_ hrun
    refine congrFun (congrArg (withCursor 0) (funext fun cs => ?_)) _
    cases cs.cursor.currentKey <;> rfl
  unfold withCursor at hread
  rw [bind_ok (get_apply _)] at hread
  cases hcs : (s.moveTo (s.pc + 1) s.regs).cursors.lookup 0 with
  | none =>
    rw [hcs] at hread
    cases hread
    exact ⟨rfl, s.regs, rfl, fun _ _ => rfl⟩
  | some cs =>
    rw [hcs] at hread
    dsimp only at hread
    cases hkey : cs.cursor.currentKey with
    | none =>
      rw [hkey] at hread
      cases hread
      exact ⟨rfl, s.regs, rfl, fun _ _ => rfl⟩
    | some id =>
      rw [hkey] at hread
      have hanswer := hread.symm.trans (answer_nat 1 (.integer (Int64.ofInt id)))
      cases hanswer
      exact ⟨rfl, _, rfl, fun j hj => regAt_putReg_ne _ _ hj⟩

/-- The record goes to register 10. -/
theorem rounds_makeRecord {n : Nat} {values : List Value}
    (hinsn : s.program.insns[s.pc]? = some { opcode := .makeRecord, p1 := n, p2 := 2, p3 := 10 })
    (hvalues : (List.range n).map (fun i => regAt s.regs (2 + i)) = values) (h : Rounds round 1 s t) :
    ∃ bytes, encodeRecord values = .ok bytes ∧ t = s.moveTo (s.pc + 1) (putReg s.regs 10 (.blob bytes)) := by
  have hrecord : recordValues (s.moveTo (s.pc + 1) s.regs)
      { opcode := .makeRecord, p1 := n, p2 := 2, p3 := 10 } = values := by
    rw [← hvalues, recordValues_eq]
    exact List.map_congr_left fun i _ => getReg_nat (s.moveTo (s.pc + 1) s.regs) (2 + i)
  obtain ⟨v, hv, rfl⟩ := rounds_store (c := encodeRecord values >>= fun record => pure (.blob record)) (r := 10) hinsn
    (fun fuel => by
      have hread : execute fuel { opcode := .makeRecord, p1 := n, p2 := 2, p3 := 10 } (s.moveTo (s.pc + 1) s.regs) =
          (lift (encodeRecord values) >>= fun record => answer 10 (.blob record)) (s.moveTo (s.pc + 1) s.regs) := by
        rw [← hrecord]
        rfl
      rw [hread]
      cases encodeRecord values <;> rfl) h
  obtain ⟨bytes, hbytes, hv⟩ := Res.bind_eq_ok.mp hv
  cases hv
  exact ⟨bytes, hbytes, rfl⟩

/-- In front of its `Insert` the code of a row has made the record of what was placed last
in each register. -/
theorem rounds_row {update : Update} (hrow : OnRow s 0 row)
    (hp : Placed s.program.insns s.pc (compileUpdateRow update table))
    (h : Rounds round ((compileUpdateRow update table).length - 1) s t) :
    ∃ regs bytes, Filled (regAt s.regs 0) row (rowPlaces update table) s.regs regs ∧
      encodeRecord ((List.range table.columnCount).map fun j => regAt regs (j + 2)) = .ok bytes ∧
      t.program = s.program ∧ t.program.insns[t.pc]? = some { opcode := .insert, p1 := 10, p3 := 1, p5 := 1 } ∧
      getReg t 10 = .blob bytes := by
  unfold compileUpdateRow at hp h
  dsimp only at hp h
  rw [List.append_assoc] at hp
  rw [List.append_assoc, List.length_append, List.length_append, List.length_map] at h
  have hlen : ∀ a b : Nat, a + (b + 3) - 1 = a + (b + (1 + 1)) := by omega
  obtain ⟨u, hcols, h⟩ := (hlen _ _ ▸ h).split
  obtain ⟨v, hassign, h⟩ := h.split
  obtain ⟨w, hrowid, hmake⟩ := h.split
  obtain ⟨regs₁, rfl, hfill₁⟩ := rounds_columns (z := regAt s.regs 0) hrow hp.left hcols
  have hz : regAt regs₁ 0 = regAt s.regs 0 := hfill₁.first fun w hw => by
    obtain ⟨j, -, rfl⟩ := List.mem_map.mp hw
    exact Nat.le_add_left 1 (j + 1)
  have hp₁ := hp.right
  rw [List.length_map] at hp₁
  obtain ⟨regs₂, rfl, hfill₂⟩ := rounds_assignments (s := s.moveTo (s.pc + (List.range table.columnCount).length) regs₁)
    (hrow.moveTo _ _) hz hp₁.left hassign
  have hp₂ := hp₁.right
  obtain ⟨regs₃, rfl, hkept⟩ := rounds_rowid (s := s.moveTo (s.pc + (List.range table.columnCount).length +
    (update.assignments.flatMap (compileAssignment table)).length) regs₂) hp₂.head hrowid
  have hvalues : (List.range table.columnCount).map (fun j => regAt regs₃ (2 + j)) =
      (List.range table.columnCount).map fun j => regAt regs₂ (j + 2) :=
    List.map_congr_left fun j _ => by
      rw [Nat.add_comm 2 j]
      exact hkept (j + 2) (by omega)
  obtain ⟨bytes, hbytes, rfl⟩ := rounds_makeRecord (s := s.moveTo (s.pc + (List.range table.columnCount).length +
    (update.assignments.flatMap (compileAssignment table)).length + 1) regs₃) hp₂.tail.head hvalues hmake
  refine ⟨regs₂, bytes, hfill₁.append hfill₂, hbytes, rfl, hp₂.tail.tail.head, ?_⟩
  exact (getReg_nat _ 10).trans (regAt_putReg_self _ _ _)

end

/-! ## Programs -/

/-- Where the code of a row begins. -/
def rowAddress (update : Update) (table : Schema.Table) : Nat :=
  4 + match update.whereClause with
    | some w => (compileWhereExpr w table 0 0).length + 1
    | none => 0

/-- A jump in front of a piece of code is patched. -/
theorem placed_patchP2 {prog : Program} {i addr : Nat} {seg : List Insn} (h : Placed prog.insns i seg)
    (hlt : addr < i) (target : Int) : Placed (prog.patchP2 addr target).insns i seg := by
  obtain ⟨pre, post, hcode, rfl⟩ := h
  have hsplit : pre = pre.take addr ++ pre[addr] :: pre.drop (addr + 1) := by
    rw [List.cons_getElem_drop_succ, List.take_append_drop]
  have hinsns : prog.insns = pre.take addr ++ pre[addr] :: (pre.drop (addr + 1) ++ seg ++ post) := by
    have hassoc : pre.take addr ++ pre[addr] :: (pre.drop (addr + 1) ++ seg ++ post) =
        (pre.take addr ++ pre[addr] :: pre.drop (addr + 1)) ++ seg ++ post := by
      simp only [List.append_assoc, List.cons_append]
    rw [hassoc, ← hsplit]
    exact hcode
  refine ⟨pre.take addr ++ { pre[addr] with p2 := target } :: pre.drop (addr + 1), post, ?_, ?_⟩
  · rw [Program.patchP2_insns hinsns (by rw [List.length_take]; omega) target]
    simp
  · simp
    omega

theorem placed_emitAll {prog : Program} {i : Nat} {seg : List Insn} (h : Placed prog.insns i seg) (code : List Insn) :
    Placed (prog.emitAll code).insns i seg := by
  obtain ⟨pre, post, hcode, hlen⟩ := h
  refine ⟨pre, post ++ code, ?_, hlen⟩
  show prog.insns ++ code = _
  rw [hcode, List.append_assoc]

/-- The code that is added stands at the end. -/
theorem placed_here (prog : Program) (code : List Insn) : Placed (prog.emitAll code).insns prog.here code :=
  ⟨prog.insns, [], by rw [List.append_nil]; rfl, rfl⟩

theorem placed_change (nReg : Nat) (name : String) (table : Schema.Table) (w : Option Expr) (change : List Insn) :
    Placed (compileChange nReg name table w change).insns
      (4 + match w with
        | some w => (compileWhereExpr w table 0 0).length + 1
        | none => 0) change := by
  unfold compileChange
  let opened : Program := ({ Program.new with nReg := nReg }.emitAll (openForWrite name)).emit { opcode := .rewind }
  cases w with
  | none =>
    have hrewind : ({ Program.new with nReg := nReg }.emitAll (openForWrite name)).here < 4 + 0 := show 3 < 4 by decide
    exact placed_emitAll (placed_patchP2 (placed_emitAll (placed_here opened change) _) hrewind _) _
  | some w =>
    let tested : Program := (opened.emitAll (compileWhereExpr w table 0 0)).emit { opcode := .ifNot }
    have hhere : tested.here = 4 + ((compileWhereExpr w table 0 0).length + 1) := by
      show (opened.insns ++ compileWhereExpr w table 0 0 ++ [_]).length = _
      rw [List.length_append, List.length_append, List.length_singleton, Nat.add_assoc]
      rfl
    have hskip : (opened.emitAll (compileWhereExpr w table 0 0)).here < tested.here := by
      show (opened.insns ++ compileWhereExpr w table 0 0).length < (opened.insns ++ compileWhereExpr w table 0 0 ++ [_]).length
      generalize opened.insns ++ compileWhereExpr w table 0 0 = code
      rw [List.length_append, List.length_singleton]
      exact Nat.lt_succ_self _
    have hrewind : ({ Program.new with nReg := nReg }.emitAll (openForWrite name)).here < tested.here := by
      rw [hhere]
      exact Nat.lt_of_lt_of_le (show 3 < 4 by decide) (Nat.le_add_right 4 _)
    dsimp only
    rw [← hhere]
    exact placed_emitAll (placed_patchP2 (placed_emitAll (placed_patchP2 (placed_here tested change) hskip _) _)
      hrewind _) _

/-- In front of an `Insert`, with the record of these values. -/
def WritesRecord (values : List Value) (s : Machine) : Prop :=
  ∃ insn bytes, s.program.insns[s.pc]? = some insn ∧ insn.opcode = .insert ∧ insertRecord s insn = .ok bytes ∧
    decodeRecord bytes = .ok values

/-- What an `UPDATE` is to write into column `j`: its last assignment, or the old value.
What the expressions mean is a parameter. -/
def updated (value : Expr → Value) (update : Update) (table : Schema.Table) (row : List Value) (j : Nat) : Value :=
  match update.assignments.reverse.find? (fun a => table.columnIndex a.1 == some j) with
  | some a =>
    match columnOf? table a.2 with
    | some i => cell row (some i)
    | none => value a.2
  | none => cell row (some j)

theorem lastPlaced_mem {places : List (Nat × Source)} {r : Nat} {src : Source} (h : lastPlaced places r = some src) :
    ∃ w ∈ places, w.2 = src := by
  obtain ⟨w, hw, rfl⟩ := Option.map_eq_some_iff.mp h
  exact ⟨w, List.mem_reverse.mp (List.mem_of_find?_eq_some hw), rfl⟩

/-- Each column is loaded at least. -/
theorem lastPlaced_rowPlaces {update : Update} {table : Schema.Table} {j : Nat} (hj : j < table.columnCount) :
    ∃ src, lastPlaced (rowPlaces update table) (j + 2) = some src := by
  have hload : (lastPlaced ((List.range table.columnCount).map fun j => (j + 2, Source.column j)) (j + 2)).isSome := by
    unfold lastPlaced
    rw [Option.isSome_map, List.find?_isSome]
    exact ⟨(j + 2, .column j), List.mem_reverse.mpr (List.mem_map_of_mem (List.mem_range.mpr hj)), by simp⟩
  unfold rowPlaces
  rw [lastPlaced_append, ← Option.isSome_iff_exists, Option.isSome_or, hload, Bool.or_true]

/-- The record has these values where each was placed last in its register. -/
theorem writesRecord_iff [Unicode] {schema : Schema} {update : Update} {prog : Program}
    (h : compileUpdate update schema = .ok prog) {table : Schema.Table} (ht : schema.table update.table = some table)
    (f : Nat → Value) {row : List Value} {s t : Machine} (hs : s.program = prog)
    (hpc : s.pc = rowAddress update table) (hrow : OnRow s 0 row)
    (hrun : Rounds round ((compileUpdateRow update table).length - 1) s t)
    (hsized : table.columnCount < 2 ^ 50 ∧ ∀ place ∈ rowPlaces update table, ∀ v,
      place.2.worth (regAt s.regs 0) row = .ok v → v.Sized) :
    WritesRecord ((List.range table.columnCount).map f) t ↔
      ∀ j < table.columnCount, ∃ src, lastPlaced (rowPlaces update table) (j + 2) = some src ∧
        src.worth (regAt s.regs 0) row = .ok (f j) := by
  have hprog : prog = compileChange (table.columnCount + 16) update.table table update.whereClause
      (compileUpdateRow update table) := by
    unfold compileUpdate at h
    rw [ht] at h
    obtain ⟨_, -, h⟩ := Res.bind_eq_ok.mp h
    cases h
    rfl
  have hp : Placed s.program.insns s.pc (compileUpdateRow update table) := by
    rw [hs, hpc, hprog]
    exact placed_change _ _ _ _ _
  obtain ⟨regs, bytes, hfill, henc, -, hinsn, hreg⟩ := rounds_row hrow hp hrun
  have hplaced : ∀ j < table.columnCount, ∃ src, lastPlaced (rowPlaces update table) (j + 2) = some src ∧
      src.worth (regAt s.regs 0) row = .ok (regAt regs (j + 2)) := by
    intro j hj
    obtain ⟨src, hsrc⟩ := lastPlaced_rowPlaces hj
    exact ⟨src, hsrc, hfill.some hsrc⟩
  have hdec : decodeRecord bytes = .ok ((List.range table.columnCount).map fun j => regAt regs (j + 2)) := by
    obtain ⟨enc, henc', hdec, -⟩ := decodeRecord_encodeRecord
      ((List.range table.columnCount).map fun j => regAt regs (j + 2)) []
      (by rw [List.length_map, List.length_range]; exact hsized.1) (by
        intro v hv
        obtain ⟨j, hj, rfl⟩ := List.mem_map.mp hv
        obtain ⟨src, hsrc, hworth⟩ := hplaced j (List.mem_range.mp hj)
        obtain ⟨w, hw, rfl⟩ := lastPlaced_mem hsrc
        exact hsized.2 w hw _ hworth)
    cases henc.symm.trans henc'
    rwa [List.append_nil] at hdec
  have hrecord : insertRecord t { opcode := .insert, p1 := 10, p3 := 1, p5 := 1 } = .ok bytes := by
    unfold insertRecord
    rw [hreg]
  constructor
  · rintro ⟨insn, bytes', hinsn', -, hrecord', hdec'⟩ j hj
    cases hinsn.symm.trans hinsn'
    cases hrecord.symm.trans hrecord'
    obtain ⟨src, hsrc, hworth⟩ := hplaced j hj
    have heq := Except.ok.inj (hdec.symm.trans hdec')
    have hat : regAt regs (j + 2) = f j := List.map_inj_left.mp heq j (List.mem_range.mpr hj)
    exact ⟨src, hsrc, hat ▸ hworth⟩
  · intro hall
    refine ⟨_, bytes, hinsn, rfl, hrecord, hdec.trans (congrArg _ (List.map_congr_left fun j hj => ?_))⟩
    obtain ⟨src, hsrc, hworth⟩ := hplaced j (List.mem_range.mp hj)
    obtain ⟨src', hsrc', hworth'⟩ := hall j (List.mem_range.mp hj)
    cases hsrc.symm.trans hsrc'
    exact Except.ok.inj (hworth.symm.trans hworth')

/-- The record of the row 5, 7. -/
def fiveSeven : Bytes := Btree.image (encodeRecord [.integer 5, .integer 7])

/-- The database with the table `t(a, b)` and that row. -/
def fiveSevenDb : Db :=
  { pairDb with pager := { oneRowDb.pager with
      cache := AList.singleton 2 { data := Btree.rowPage 1 fiveSeven, dirty := true } } }

/-- `UPDATE t SET column = e`. -/
def setTo (column : String) (e : Expr) : Update where
  table := "t"
  assignments := [(column, e)]
  whereClause := none

/-- The program comes to its row and, behind that, to the `Insert`. -/
def comesToRow [Unicode] (update : Update) (row : List Value) : Bool :=
  match compileUpdate update fiveSevenDb.schema with
  | .error _ => false
  | .ok prog =>
    match after (round 20) 4 (fresh prog fiveSevenDb) with
    | none => false
    | some s => decide (s.program = prog ∧ s.pc = rowAddress update tableAB ∧ regAt s.regs 0 = .null) &&
      (match s.cursors.lookup 0 with
        | some cs => decide ((cs.cursor.attach s.pager).values = .ok row)
        | none => false) &&
      (after (round 20) ((compileUpdateRow update tableAB).length - 1) s).isSome

theorem of_comesToRow [Unicode] {update : Update} {row : List Value} (h : comesToRow update row = true) :
    ∃ prog s t, compileUpdate update fiveSevenDb.schema = .ok prog ∧ Rounds round 4 (fresh prog fiveSevenDb) s ∧
      s.program = prog ∧ s.pc = rowAddress update tableAB ∧ regAt s.regs 0 = .null ∧ OnRow s 0 row ∧
      Rounds round ((compileUpdateRow update tableAB).length - 1) s t := by
  unfold comesToRow at h
  cases hprog : compileUpdate update fiveSevenDb.schema with
  | error e =>
    rw [hprog] at h
    cases h
  | ok prog =>
    rw [hprog] at h
    dsimp only at h
    cases hs : after (round 20) 4 (fresh prog fiveSevenDb) with
    | none =>
      rw [hs] at h
      cases h
    | some s =>
      rw [hs] at h
      dsimp only at h
      rw [Bool.and_eq_true, Bool.and_eq_true] at h
      obtain ⟨⟨hstate, hcursor⟩, hafter⟩ := h
      obtain ⟨hprogram, hpc, hzero⟩ := of_decide_eq_true hstate
      obtain ⟨t, ht⟩ := Option.isSome_iff_exists.mp hafter
      refine ⟨prog, s, t, rfl, rounds_of_after hs, hprogram, hpc, hzero, ?_, rounds_of_after ht⟩
      cases hcs : s.cursors.lookup 0 with
      | none =>
        rw [hcs] at hcursor
        cases hcursor
      | some cs =>
        rw [hcs] at hcursor
        exact ⟨cs, hcs, of_decide_eq_true hcursor⟩

/-- Every value that is placed can be encoded. -/
theorem sized_of {update : Update} {table : Schema.Table} {z : Value} {row : List Value}
    (h : (rowPlaces update table).all (fun place => (place.2.worth z row).toOption.all fun v => v.Sized) = true) :
    ∀ place ∈ rowPlaces update table, ∀ v, place.2.worth z row = .ok v → v.Sized := by
  intro place hmem v hv
  have hplace := List.all_eq_true.mp h place hmem
  rw [hv] at hplace
  exact of_decide_eq_true hplace

example : let _ := Unicode.ascii
    comesToRow (setTo "b" (.integer 1)) [.integer 5, .integer 7] = true := by
  decide +kernel

end Vdbe

end Sqllite
