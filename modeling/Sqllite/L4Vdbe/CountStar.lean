import Sqllite.L4Vdbe.Where

/-!
# `SELECT COUNT(*)` over one table

A `SELECT` of nothing but `COUNT(*)` compiles to the opcode `Count`, which counts the rows
of the scan. Its WHERE clause has no code there. Elsewhere the code of a condition computes
a value, or fails: `Expr.judged`.

* `compilePred_outcome`: what the code of any condition does.
* `countStar_iff`: where `Count` counts the rows on which it is true.
-/
namespace Sqllite
open Lib Lib.Run Lib.Machine

/-! ## The code of any condition -/

namespace Vdbe

/-- The opcodes that store what they make of two registers. -/
def isBinary (op : Opcode) : Bool :=
  match op with
  | .add | .subtract | .multiply | .divide | .remainder | .concat => true
  | op => isLogic op

/-- What such an opcode makes of two values. -/
def combined (op : Opcode) (a b : Value) : Result Value :=
  match op with
  | .add => .ok (.real (a.asReal.getD 0 + b.asReal.getD 0).toBits)
  | .subtract => .ok (.real (a.asReal.getD 0 - b.asReal.getD 0).toBits)
  | .multiply => .ok (.real (a.asReal.getD 0 * b.asReal.getD 0).toBits)
  | .divide => .ok (.real (a.asReal.getD 0 / b.asReal.getD 0).toBits)
  | .remainder => do
    let r ← remainder (a.asInteger.getD 0) (b.asInteger.getD 0)
    pure (.integer r)
  | .concat => .ok (.text (a.toText ++ b.toText))
  | op => .ok (logic op a b)

end Vdbe

namespace Expr

/-- What the code of `compile_expr` comes to: a column is NULL for it, and an operator on
one operand reads register 0, which is NULL, for the other one. -/
def computed : Expr → Result Value
  | .integer n => .ok (.integer (Int64.ofInt (asI32 n)))
  | .real r => .ok (.real r)
  | .string s => .ok (.text s)
  | .binaryOp op l r => do
    let a ← l.computed
    let b ← r.computed
    Vdbe.combined op.opcode a b
  | .unaryOp op e => do
    let a ← e.computed
    Vdbe.combined op.opcode a .null
  | _ => .ok .null

/-- The same where register 0 holds `z`. -/
def computedOn (z : Value) : Expr → Result Value
  | .integer n => .ok (.integer (Int64.ofInt (asI32 n)))
  | .real r => .ok (.real r)
  | .string s => .ok (.text s)
  | .binaryOp op l r => do
    let a ← l.computedOn z
    let b ← r.computedOn z
    Vdbe.combined op.opcode a b
  | .unaryOp op e => do
    let a ← e.computedOn z
    Vdbe.combined op.opcode a z
  | _ => .ok .null

theorem computedOn_null (e : Expr) : e.computedOn .null = e.computed := by
  induction e using Expr.computed.induct with
  | case1 | case2 | case3 => rfl
  | case4 op l r ihl ihr => rw [computedOn, computed, ihl, ihr]
  | case5 op e ih => rw [computedOn, computed, ih]
  | case6 e h1 h2 h3 h4 h5 =>
    cases e with
    | integer n => exact absurd rfl (h1 n)
    | real x => exact absurd rfl (h2 x)
    | string text => exact absurd rfl (h3 text)
    | binaryOp op l r => exact absurd rfl (h4 op l r)
    | unaryOp op e => exact absurd rfl (h5 op e)
    | _ => rfl

/-- What the code of `compile_column_or_expr` comes to. -/
def computedIn (names : Names) (row : List Value) (e : Expr) : Result Value :=
  match e.column? names with
  | some i => .ok (cell row (some i))
  | none => e.computed

/-- What the code of `compile_pred` comes to. -/
def judged (names : Names) (row : List Value) : Expr → Result Value
  | .binaryOp op l r => do
    let a ← l.computedIn names row
    let b ← r.computedIn names row
    Vdbe.combined op.predOpcode a b
  | e => e.computedIn names row

/-- The code of a condition comes to a true value. -/
def passes (names : Names) (w : Expr) (row : List Value) : Bool :=
  match w.judged names row with
  | .ok v => v.nonzero
  | .error _ => false

end Expr

namespace Vdbe

section
variable [Unicode] {s : Machine} {insn : Insn} {fuel : Nat}

theorem execute_binary (h : isBinary insn.opcode = true) : execute fuel insn s =
    (lift (combined insn.opcode (getReg s insn.p2) (getReg s insn.p3)) >>= answer insn.p1) s := by
  obtain ⟨op, p1, p2, p3, p4, p5⟩ := insn
  cases op with
  | remainder =>
    have hread : execute fuel { opcode := .remainder, p1 := p1, p2 := p2, p3 := p3, p4 := p4, p5 := p5 } s =
        (lift (remainder ((getReg s p2).asInteger.getD 0) ((getReg s p3).asInteger.getD 0)) >>=
          fun r => answer p1 (.integer r)) s := rfl
    rw [hread]
    dsimp only [combined]
    cases remainder ((getReg s p2).asInteger.getD 0) ((getReg s p3).asInteger.getD 0) <;> rfl
  | _ =>
    first
      | exact absurd h Bool.false_ne_true
      | exact execute_logic rfl
      | rfl

/-- The code leaves the value in register `r` and those below alone, or it fails. -/
def Outcome (s : Machine) (code : List Insn) (r : Nat) : Result Value → Prop
  | .ok v => Computes s code r v
  | .error e => ∃ t, Ends round s (.error e t)

theorem outcome_binary (insn : Insn) {r : Nat} (h : isBinary insn.opcode = true) (hr : insn.p1 = r)
    (hp : Placed s.program.insns s.pc [insn]) :
    Outcome s [insn] r (combined insn.opcode (getReg s insn.p2) (getReg s insn.p3)) := by
  have hex : ∀ fuel, execute fuel insn (s.moveTo (s.pc + 1) s.regs) =
      (lift (combined insn.opcode (getReg s insn.p2) (getReg s insn.p3)) >>= answer r)
        (s.moveTo (s.pc + 1) s.regs) := by
    intro fuel
    rw [execute_binary h, hr]
    rfl
  cases hv : combined insn.opcode (getReg s insn.p2) (getReg s insn.p3) with
  | ok v =>
    rw [hv] at hex
    exact computes_one hp r v hex
  | error e =>
    rw [hv] at hex
    exact ⟨_, Ends.fail fun fuel => round_error hp.head (hex fuel)⟩

/-- One piece of code, then another that goes on with its value. -/
theorem outcome_bind {code code' : List Insn} {r r' : Nat} {x : Result Value}
    {f : Value → Result Value} (hle : r' ≤ r) (h : Outcome s code r x)
    (h' : ∀ v regs, regAt regs r = v → (∀ j < r, regAt regs j = regAt s.regs j) →
      Outcome (s.moveTo (s.pc + code.length) regs) code' r' (f v)) :
    Outcome s (code ++ code') r' (x >>= f) := by
  cases x with
  | error e => exact h
  | ok v =>
    obtain ⟨regs, hrun, hv, hlow⟩ := h
    have hnext := h' v regs hv hlow
    rw [Res.ok_bind]
    cases hf : f v with
    | error e =>
      rw [hf] at hnext
      obtain ⟨t, hend⟩ := hnext
      exact ⟨t, hrun.ends hend⟩
    | ok w =>
      rw [hf] at hnext
      obtain ⟨regs', hrun', hw, hlow'⟩ := hnext
      refine ⟨regs', ?_, hw, fun j hj => (hlow' j hj).trans (hlow j (by omega))⟩
      rw [List.length_append, ← Nat.add_assoc]
      exact hrun.trans hrun'

/-- Two values, and the instruction that makes one of them. -/
theorem outcome_combine {cl cr : List Insn} {op : Opcode} {r : Nat} {x y : Result Value}
    (hop : isBinary op = true) (hp : Placed s.program.insns s.pc (cl ++ cr ++ [combine op r]))
    (hl : Placed s.program.insns s.pc cl → Outcome s cl (r + 1) x)
    (hr : ∀ pc regs, regAt regs 0 = regAt s.regs 0 → Placed s.program.insns pc cr →
      Outcome (s.moveTo pc regs) cr (r + 2) y) :
    Outcome s (cl ++ cr ++ [combine op r]) r (x >>= fun a => y >>= combined op a) := by
  rw [List.append_assoc] at hp ⊢
  refine outcome_bind (Nat.le_succ r) (hl hp.left) fun a regs ha hlow => ?_
  have hp' := hp.right
  refine outcome_bind (by omega) (hr _ regs (hlow 0 (by omega)) hp'.left) fun b regs' hb hlow' => ?_
  have hregs : regAt regs' (r + 1) = a := (hlow' (r + 1) (by omega)).trans ha
  have hcomb := outcome_binary (combine op r) hop rfl
    (s := (s.moveTo (s.pc + cl.length) regs).moveTo (s.pc + cl.length + cr.length) regs') hp'.right
  have h1 : ∀ t : Machine, getReg t (combine op r).p2 = regAt t.regs (r + 1) := fun t => getReg_nat t (r + 1)
  have h2 : ∀ t : Machine, getReg t (combine op r).p3 = regAt t.regs (r + 2) := fun t => getReg_nat t (r + 2)
  rw [h1, h2, Machine.moveTo_regs, hregs, hb] at hcomb
  exact hcomb

end

theorem isBinary_opcode (op : BinaryOp) : isBinary op.opcode = true := by cases op <;> rfl

theorem isBinary_unary (op : UnaryOp) : isBinary op.opcode = true := by cases op <;> rfl

theorem isBinary_predOpcode (op : BinaryOp) : isBinary op.predOpcode = true := by cases op <;> rfl

section
variable [Unicode]

/-- The code of an expression: induction on the expression. -/
theorem compileExpr_outcomeOn (e : Expr) {z : Value} : ∀ {s : Machine} (r : Nat), regAt s.regs 0 = z →
    Placed s.program.insns s.pc (compileExpr e r) → Outcome s (compileExpr e r) r (e.computedOn z) := by
  induction e using Expr.computed.induct with
  | case1 n => exact fun r _ hp => computes_one hp r _ fun fuel => rfl
  | case2 x => exact fun r _ hp => computes_one hp r _ fun fuel => rfl
  | case3 text => exact fun r _ hp => computes_one hp r _ fun fuel => rfl
  | case4 op left right ihl ihr =>
    intro s r h0 hp
    exact outcome_combine (isBinary_opcode op) hp (fun h => ihl (r + 1) h0 h)
      fun pc regs hregs h => ihr (s := s.moveTo pc regs) (r + 2) (hregs.trans h0) h
  | case5 op e ih =>
    intro s r h0 hp
    refine outcome_bind (Nat.le_succ r) (ih (r + 1) h0 hp.left) fun a regs ha hlow => ?_
    have hone := outcome_binary { opcode := op.opcode, p1 := r, p2 := (r + 1 : Nat) }
      (s := s.moveTo (s.pc + (compileExpr e (r + 1 : Nat)).length) regs) (isBinary_unary op) rfl hp.right
    have h1 : ∀ t : Machine, getReg t ((r + 1 : Nat) : Int) = regAt t.regs (r + 1) :=
      fun t => getReg_nat t (r + 1)
    have h2 : ∀ t : Machine, getReg t 0 = regAt t.regs 0 := fun t => getReg_nat t 0
    dsimp only at hone
    rw [h1, h2, Machine.moveTo_regs, ha, hlow 0 (by omega), h0] at hone
    exact hone
  | case6 e h1 h2 h3 h4 h5 =>
    cases e with
    | integer n => exact absurd rfl (h1 n)
    | real x => exact absurd rfl (h2 x)
    | string text => exact absurd rfl (h3 text)
    | binaryOp op left right => exact absurd rfl (h4 op left right)
    | unaryOp op e => exact absurd rfl (h5 op e)
    | _ => exact fun r _ hp => computes_one hp r .null fun fuel => rfl

theorem compileExpr_outcome (e : Expr) {s : Machine} (r : Nat) (h0 : regAt s.regs 0 = .null)
    (hp : Placed s.program.insns s.pc (compileExpr e r)) :
    Outcome s (compileExpr e r) r e.computed := by
  rw [← e.computedOn_null]
  exact compileExpr_outcomeOn e r h0 hp

variable {schema : Schema} {t : Schema.Table} {tb : TableBinding} {row : List Value} {s : Machine}

theorem compileColumnOrExpr_outcome (ht : schema.table tb.name = some t) (e : Expr)
    (hrow : OnRow s tb.cursor row) (r : Nat) (h0 : regAt s.regs 0 = .null)
    (hp : Placed s.program.insns s.pc (compileColumnOrExpr e schema [tb] r)) :
    Outcome s (compileColumnOrExpr e schema [tb] r) r (e.computedIn (t.names tb) row) := by
  rw [compileColumnOrExpr_eq ht] at hp ⊢
  unfold Expr.computedIn
  cases hcol : e.column? (t.names tb) with
  | none =>
    rw [hcol] at hp
    exact compileExpr_outcome e r h0 hp
  | some i =>
    rw [hcol] at hp
    exact computes_one hp r _ fun fuel =>
      execute_column (s := s.moveTo (s.pc + 1) s.regs) hrow r i fuel

/-- The code of a condition on the row of the cursor, whatever the registers but the first
hold. -/
theorem compilePred_outcome (ht : schema.table tb.name = some t) (w : Expr)
    (hrow : OnRow s tb.cursor row) (r : Nat) (h0 : regAt s.regs 0 = .null)
    (hp : Placed s.program.insns s.pc (compilePred w schema [tb] r)) :
    Outcome s (compilePred w schema [tb] r) r (w.judged (t.names tb) row) := by
  have hatom : compilePred w schema [tb] r = compileColumnOrExpr w schema [tb] r →
      w.judged (t.names tb) row = w.computedIn (t.names tb) row →
      Outcome s (compilePred w schema [tb] r) r (w.judged (t.names tb) row) := by
    intro hcode hvalue
    rw [hcode] at hp ⊢
    rw [hvalue]
    exact compileColumnOrExpr_outcome ht w hrow r h0 hp
  cases w with
  | binaryOp op left right =>
    exact outcome_combine (isBinary_predOpcode op) hp
      (fun h => compileColumnOrExpr_outcome ht left hrow (r + 1) h0 h)
      fun pc regs hregs h => compileColumnOrExpr_outcome (s := s.moveTo pc regs) ht right hrow (r + 2)
        (hregs.trans h0) h
  | _ => exact hatom rfl rfl

end

end Vdbe

/-! ## Counting a scan -/

namespace BtreeCursor

variable {c c' : BtreeCursor}

/-- From a row on, the rows behind it are counted too: induction on these. -/
theorem scanFrom_count : ∀ {rows : List Row} {c : BtreeCursor} {k : Int} {n : Nat},
    Yields next c rows c' → rows.length < n → 0 ≤ k → k + rows.length + 1 < 2 ^ 63 →
    scanFrom Vdbe.countRow n k c = .ok (k + rows.length + 1) c'
  | _, _, _, 0, _, hn, _, _ => absurd hn (Nat.not_lt_zero _)
  | [], c, k, n + 1, hy, _, hk, hlt => by
    have hcount : Vdbe.countRow k c = .ok (k + 1) := if_pos (by simpa using hlt)
    rw [scanFrom, bind_ok (get_apply c), hcount, bind_ok (lift_ok _ _), bind_ok hy]
    simp
  | r :: rows, c, k, n + 1, hy, hn, hk, hlt => by
    obtain ⟨c₁, hm, -, -, hy⟩ := hy
    rw [List.length_cons] at hn hlt
    have hcount : Vdbe.countRow k c = .ok (k + 1) := if_pos (by omega)
    rw [scanFrom, bind_ok (get_apply c), hcount, bind_ok (lift_ok _ _), bind_ok hm, if_pos rfl,
      scanFrom_count hy (by omega) (by omega) (by omega), List.length_cons]
    have hsum : k + 1 + rows.length + 1 = k + (rows.length + 1 : Nat) + 1 := by omega
    rw [hsum]

/-- Where the count does not fit, there is none. -/
theorem scanFrom_count_panics : ∀ {rows : List Row} {c : BtreeCursor} {k : Int} (n : Nat),
    Yields next c rows c' → k + rows.length + 1 ≥ 2 ^ 63 →
    ∃ e t, scanFrom Vdbe.countRow n k c = .error e t
  | _, c, _, 0, _, _ => ⟨_, c, rfl⟩
  | rows, c, k, n + 1, hy, hge => by
    rw [scanFrom, bind_ok (get_apply c)]
    by_cases hlt : k + 1 < 2 ^ 63
    · have hcount : Vdbe.countRow k c = .ok (k + 1) := if_pos hlt
      rw [hcount, bind_ok (lift_ok _ _)]
      cases rows with
      | nil =>
        rw [List.length_nil] at hge
        omega
      | cons r rows =>
        obtain ⟨c₁, hm, -, -, hy⟩ := hy
        rw [List.length_cons] at hge
        rw [bind_ok hm, if_pos rfl]
        exact scanFrom_count_panics n hy (by omega)
    · have hcount : Vdbe.countRow k c = panicked := if_neg hlt
      rw [hcount]
      exact ⟨_, c, rfl⟩

theorem scan_count {rows : List Row} {n : Nat} (hy : Yields first c rows c') (hn : rows.length ≤ n)
    (hlt : rows.length < 2 ^ 63) : scan Vdbe.countRow n 0 c = .ok rows.length c' := by
  cases rows with
  | nil =>
    rw [scan, bind_ok hy]
    rfl
  | cons r rows =>
    obtain ⟨c₁, hm, -, -, hy⟩ := hy
    rw [List.length_cons] at hn hlt
    rw [scan, bind_ok hm, if_pos rfl, scanFrom_count hy hn (Int.le_refl 0) (by omega), List.length_cons,
      Int.zero_add]
    rfl

theorem scan_count_panics {rows : List Row} (n : Nat) (hy : Yields first c rows c')
    (hge : 2 ^ 63 ≤ rows.length) : ∃ e t, scan Vdbe.countRow n 0 c = .error e t := by
  cases rows with
  | nil => exact absurd hge (by decide)
  | cons r rows =>
    obtain ⟨c₁, hm, -, -, hy⟩ := hy
    rw [List.length_cons] at hge
    rw [scan, bind_ok hm, if_pos rfl]
    exact scanFrom_count_panics n hy (by omega)

end BtreeCursor

/-! ## The program -/

namespace Vdbe

section
variable {s : Machine} {α : Type} {m : DbM α} {d : Db}

theorem onDb_ok {a : α} (h : m s.toDb = .ok a d) : onDb m s = .ok a { s with toDb := d } := zoom_ok h

theorem onDb_error {e : Fault SqlliteError} (h : m s.toDb = .error e d) :
    onDb m s = .error e { s with toDb := d } := zoom_error h

end

section
variable [Unicode] {s u s' : Machine} {out : List (List Value)}

/-- The loop comes to a round that takes fuel, and goes on behind it. -/
theorem loop_behind {N : Nat} {r : EStateM.Result (Fault SqlliteError) Machine ResultCode}
    (hrun : Reaches round s u) (hround : ∀ fuel ≥ N, round fuel u = .ok none s')
    (hend : Ends round s' r) : ∃ K, ∀ fuel ≥ K, ∀ n ≥ K, loop (round fuel) n s = r := by
  obtain ⟨k, hk⟩ := hrun
  obtain ⟨l, hl⟩ := hend
  refine ⟨N + k + l + 1, fun fuel hf n hn => ?_⟩
  obtain ⟨m, rfl⟩ := Nat.exists_eq_add_of_le' (show k ≤ n by omega)
  obtain ⟨m, rfl⟩ := Nat.exists_eq_add_of_le' (show 1 ≤ m by omega)
  rw [hk, loop_succ, hround fuel (by omega)]
  exact hl fuel m (by omega)

theorem finishes_behind {N : Nat} (hs : Idle s) (hrun : Reaches round s u)
    (hround : ∀ fuel ≥ N, round fuel u = .ok none s') (hret : Returns s' out) : Finishes s out := by
  cases hret with
  | @done _ t _ hend =>
    obtain ⟨K, hK⟩ := loop_behind hrun hround hend
    refine ⟨K + 1, fun fuel hf => ⟨t, ?_⟩⟩
    obtain ⟨m, rfl⟩ := Nat.exists_eq_add_of_le' (show 1 ≤ fuel by omega)
    rw [fetch, bind_ok ((step_idle hs _).trans (hK _ (by omega) _ (by omega)))]
    rfl
  | @row _ t rest _ hend hrest =>
    obtain ⟨K, hK⟩ := loop_behind hrun hround hend
    obtain ⟨M, hM⟩ := hrest.fetch_eq
    refine ⟨K + M + 1, fun fuel hf => ?_⟩
    obtain ⟨m, rfl⟩ := Nat.exists_eq_add_of_le' (show 1 ≤ fuel by omega)
    obtain ⟨v, hv⟩ := hM (m + 1) (by omega) m (by omega)
    refine ⟨v, ?_⟩
    rw [fetch, bind_ok ((step_idle hs _).trans (hK _ (by omega) _ (by omega)))]
    simp only
    rw [bind_ok (get_apply t), bind_ok hv]
    rfl

theorem Finishes.answers (h : Finishes s out) : Answers s out := by
  obtain ⟨N, hN⟩ := h
  refine ⟨N, fun fuel hf => ?_⟩
  obtain ⟨t, ht⟩ := hN fuel hf
  exact ⟨t, rows_of_fetch fuel fuel ht⟩

/-- A round that always fails: there is no answer. -/
theorem not_answers_behind (hs : Idle s) (hrun : Reaches round s u)
    (hround : ∀ fuel, ∃ e t, round fuel u = .error e t) : ¬ Answers s out := by
  intro hans
  obtain ⟨N, hN⟩ := hans
  obtain ⟨k, hk⟩ := hrun
  obtain ⟨t, ht⟩ := hN (N + k + 1) (by omega)
  obtain ⟨e, v, hv⟩ := hround (N + k + 1)
  have hloop : loop (round (N + k + 1)) (N + k + 1) s = .error e v := by
    rw [show N + k + 1 = N + 1 + k by omega, hk, loop_succ, show N + 1 + k = N + k + 1 by omega, hv]
  rw [rows, bind_error ((step_idle hs _).trans hloop)] at ht
  cases ht

/-- The code of `compile_simple_count`. -/
def countCode (name : String) : List Insn :=
  [{ opcode := .init, p2 := 1 }, { opcode := .openRead, p1 := 0, p4 := .string name },
    { opcode := .count, p2 := 0 }, { opcode := .resultRow, p1 := 1 }, { opcode := .halt }]

/-- The table is opened. -/
theorem open_count {db : Db} {t : Schema.Table} {name : String} {prog : Program}
    (ht : db.schema.table name = some t) (hprog : prog.insns = countCode name) :
    ∃ s cs, Reaches round (fresh prog db) s ∧ s.program = prog ∧ s.pc = 2 ∧ Idle s ∧
      s.toDb = db ∧ s.cursors.lookup 0 = some cs ∧ cs.rootPage = t.rootPage := by
  let cs : CursorState :=
    { rootPage := t.rootPage, cursor := tableCursor t.rootPage, table := name }
  let s1 : Machine := (fresh prog db).moveTo 1 (fresh prog db).regs
  let s2 : Machine := { s1.moveTo 2 s1.regs with cursors := s1.cursors.insert 0 cs }
  have hinit : Reaches round (fresh prog db) s1 := by
    have hp : prog.insns[0]? = some { opcode := .init, p2 := 1 } := by
      rw [hprog]
      rfl
    exact Reaches.step fun fuel => round_continue hp rfl
  have hopen : Reaches round s1 s2 := by
    have hp : prog.insns[1]? = some { opcode := .openRead, p1 := 0, p4 := .string name } := by
      rw [hprog]
      rfl
    refine Reaches.step fun fuel => round_continue (s := s1) hp ?_
    unfold execute
    rw [bind_ok (get_apply _)]
    refine (bind_ok (get_apply _) _).trans ?_
    have ht' : (s1.moveTo (s1.pc + 1) s1.regs).schema.table name = some t := ht
    simp only [ht']
    rfl
  exact ⟨s2, cs, hinit.trans hopen, rfl, rfl, ⟨rfl, rfl⟩, rfl, AList.lookup_insert _, rfl⟩

/-- The opcode `Count`, from what the scan comes to. -/
theorem execute_count {cs : CursorState} {fuel : Nat} (hcs : s.cursors.lookup 0 = some cs) :
    execute fuel { opcode := .count, p2 := 0 } s =
      (onDb (Db.onCursor (tableCursor cs.rootPage) (BtreeCursor.scan countRow fuel 0)) >>= fun count =>
        answer 0 (.integer (Int64.ofInt count))) s := by
  unfold execute withCursor
  rw [bind_ok (get_apply s)]
  refine (bind_ok (get_apply s) _).trans ?_
  simp only [hcs]

/-- The program returns the number of rows that the scan yields. -/
theorem count_finishes {db : Db} {t : Schema.Table} {name : String} {prog : Program} {rows : List Row}
    {c' : BtreeCursor} (ht : db.schema.table name = some t) (hprog : prog.insns = countCode name)
    (hy : BtreeCursor.Yields BtreeCursor.first ((tableCursor t.rootPage).attach db.pager) rows c')
    (hlt : rows.length < 2 ^ 63) :
    Finishes (fresh prog db) [[.integer (Int64.ofInt rows.length)]] := by
  obtain ⟨s, cs, hrun, hcode, hpc, hidle, hdb, hcs, hroot⟩ := open_count ht hprog
  have hinsn : ∀ i : Nat, s.program.insns[i]? = (countCode name)[i]? := by
    intro i
    rw [hcode, hprog]
  let v : Value := .integer (Int64.ofInt rows.length)
  let u : Machine := { s.moveTo 3 (putReg s.regs 0 v) with pager := c'.btree.pager }
  have hcount : ∀ fuel ≥ rows.length, round fuel s = .ok none u := by
    intro fuel hf
    have hp : s.program.insns[s.pc]? = some { opcode := .count, p2 := 0 } := by
      rw [hinsn, hpc]
      rfl
    refine round_continue hp ?_
    rw [execute_count (s := s.moveTo (s.pc + 1) s.regs) hcs, hroot]
    have hscan := BtreeCursor.scan_count (n := fuel) hy hf hlt
    rw [← hdb] at hscan
    have hcursor : Db.onCursor (tableCursor t.rootPage) (BtreeCursor.scan countRow fuel 0) s.toDb =
        .ok (rows.length : Int) { s.toDb with pager := c'.btree.pager } := zoom_ok hscan
    rw [bind_ok (onDb_ok (s := s.moveTo (s.pc + 1) s.regs) hcursor), hpc]
    exact answer_nat 0 v
  have hresult : Ends round u (.ok .row (resultOf (u.moveTo 4 u.regs) 1)) :=
    ends_resultRow (n := 1) (hinsn 3)
  have hhalt : Returns (resultOf (u.moveTo 4 u.regs) 1) [] :=
    .done hidle (Ends.answer fun fuel => round_halt (hinsn 4))
  have hrow : (resultOf (u.moveTo 4 u.regs) 1).currentRow = [v] := by
    have hloaded : Loaded (u.moveTo 4 u.regs).regs 1 [v] := by
      intro j hj
      obtain rfl : j = 0 := by omega
      exact putReg_self _ _ _
    exact (currentRow_resultOf hloaded).trans rfl
  have hreturns : Returns u [[v]] := hrow ▸ .row hidle hresult hhalt
  exact finishes_behind (fresh_idle _ _) hrun hcount hreturns

/-- More rows than an `i64` counts: the program panics. -/
theorem count_panics {db : Db} {t : Schema.Table} {name : String} {prog : Program} {rows : List Row}
    {c' : BtreeCursor} (ht : db.schema.table name = some t) (hprog : prog.insns = countCode name)
    (hy : BtreeCursor.Yields BtreeCursor.first ((tableCursor t.rootPage).attach db.pager) rows c')
    (hge : 2 ^ 63 ≤ rows.length) : ¬ Answers (fresh prog db) out := by
  obtain ⟨s, cs, hrun, hcode, hpc, hidle, hdb, hcs, hroot⟩ := open_count ht hprog
  refine not_answers_behind (fresh_idle _ _) hrun fun fuel => ?_
  have hp : s.program.insns[s.pc]? = some { opcode := .count, p2 := 0 } := by
    rw [hcode, hprog, hpc]
    rfl
  obtain ⟨e, c, hscan⟩ := BtreeCursor.scan_count_panics fuel hy hge
  rw [← hdb] at hscan
  have hcursor : Db.onCursor (tableCursor t.rootPage) (BtreeCursor.scan countRow fuel 0) s.toDb =
      .error e { s.toDb with pager := c.btree.pager } := zoom_error hscan
  let moved : Machine := { s.moveTo (s.pc + 1) s.regs with pager := c.btree.pager }
  refine ⟨e, moved, round_error hp ?_⟩
  rw [execute_count (s := s.moveTo (s.pc + 1) s.regs) hcs, hroot]
  exact bind_error (onDb_error (s := s.moveTo (s.pc + 1) s.regs) hcursor) _

end

end Vdbe

/-! ## The rows counted -/

/-- The rows on which the code of the WHERE clause comes to a true value, all without one. -/
def counted (names : Names) (w : Option Expr) (rows : List (List Value)) : List (List Value) :=
  rows.filter fun row => w.all fun w => w.passes names row

section
variable [Unicode] {db : Db} {t : Schema.Table} {name : String} {«alias» : Option String}
  {select : Select} {k : Nat} {leaves : List Leaf} {rows : List (List Value)}

/-- The statement returns the number of the rows that its WHERE clause passes. -/
def CountsRows (db : Db) (t : Schema.Table) (name : String) («alias» : Option String) (select : Select)
    (rows : List (List Value)) : Prop :=
  ∃ prog n, compile (.ok (.select select)) db.schema = .ok prog ∧
    Vdbe.Answers (Vdbe.fresh prog db) [[.integer n]] ∧
    n.toInt = (counted (t.names (onlyTable name «alias»)) select.whereClause rows).length

/-- The rows that a scan yields, decoded. -/
def Decoded (scan : List Row) (rows : List (List Value)) : Prop :=
  List.Forall₂ (fun r row => decodeRecord r.2 = .ok row) scan rows

theorem compile_countStar (ht : db.schema.table name = some t)
    (hfrom : select.«from» = some (.table name «alias»))
    (hcount : (simpleCountStar select (.table name «alias»)).isSome) :
    ∃ prog, compile (.ok (.select select)) db.schema = .ok prog ∧
      prog.insns = Vdbe.countCode name := by
  have hzero : simpleCountStar select (.table name «alias») = some 0 := by
    revert hcount
    unfold simpleCountStar
    split
    · split
      · split <;> simp
      · simp
    · simp
  refine ⟨{ insns := Vdbe.countCode name, nReg := 8, readOnly := true }, ?_, rfl⟩
  rw [compile, compileSelect, hfrom]
  simp only [hzero, compileSimpleCount, ht]
  rfl

/-- A `SELECT` of `COUNT(*)` alone counts the rows that its WHERE clause passes exactly if
it passes all that are scanned, and they are fewer than 2^63. -/
theorem countStar_iff (hs : db.pager.Ready) (ht : db.schema.table name = some t)
    (htree : TreeAt db.pager k t.rootPage leaves) (hrows : Decoded (scanned leaves) rows)
    (hfrom : select.«from» = some (.table name «alias»))
    (hcount : (simpleCountStar select (.table name «alias»)).isSome) :
    CountsRows db t name «alias» select rows ↔ rows.length < 2 ^ 63 ∧
      ∀ w, select.whereClause = some w → ∀ row ∈ rows,
        w.passes (t.names (onlyTable name «alias»)) row = true := by
  obtain ⟨prog, hprog, hcode⟩ := compile_countStar ht hfrom hcount
  obtain ⟨c', hy, -⟩ := BtreeCursor.scan_spec hs (c := (tableCursor t.rootPage).attach db.pager)
    (Pager.Reads.refl _) rfl htree
  let passed := counted (t.names (onlyTable name «alias»)) select.whereClause rows
  have hlen : (scanned leaves).length = rows.length := hrows.length_eq
  have hint : ∀ n : Nat, n < 2 ^ 63 → (Int64.ofInt n).toInt = n := fun n hn =>
    Int64.toInt_ofInt_of_le (by omega) (by omega)
  constructor
  · intro h
    obtain ⟨prog', n, hprog', hans, hn⟩ := h
    cases hprog.symm.trans hprog'
    have hlt : rows.length < 2 ^ 63 := by
      by_contra hge
      exact Vdbe.count_panics ht hcode hy (by omega) hans
    have heq := hans.unique (Vdbe.count_finishes ht hcode hy (by omega)).answers
    have hval : n = Int64.ofInt rows.length := by
      simpa [hlen] using heq
    rw [hval, hint _ hlt] at hn
    have hfull : passed.length = rows.length := (Int.ofNat.inj hn).symm
    have hall := List.length_filter_eq_length_iff.mp hfull
    refine ⟨hlt, fun w hw row hrow => ?_⟩
    have hpass := hall row hrow
    rw [hw] at hpass
    exact hpass
  · intro h
    obtain ⟨hlt, hpass⟩ := h
    refine ⟨prog, _, hprog, (Vdbe.count_finishes ht hcode hy (by omega)).answers, ?_⟩
    rw [hlen, hint _ hlt, counted, List.length_filter_eq_length_iff.mpr]
    intro row hrow
    cases hw : select.whereClause with
    | none => rfl
    | some w => exact hpass w hw row hrow

end

/-- `SELECT COUNT(*) FROM t WHERE w`. -/
def selectCount (w : Expr) : Select where
  distinct := false
  columns := [{ expr := .function "COUNT" false [.star], «alias» := none }]
  «from» := some (.table "t" none)
  whereClause := some w
  groupBy := []
  having := none
  orderBy := []
  limit := none
  offset := none

/-- `a = 2`. -/
def isTwo : Expr := .binaryOp .eq (.ident "a") (.integer 2)

theorem oneRow_decoded : Decoded (scanned [Btree.rowLeaf 2 1 oneRecord]) [[.integer 1]] :=
  .cons (show decodeRecord oneRecord = .ok [.integer 1] by decide +kernel) .nil

theorem countStar_iff_one : let _ := Unicode.ascii
    CountsRows oneRowDb tableA "t" none (selectCount isOne) [[.integer 1]] ↔
      ([[.integer 1]] : List (List Value)).length < 2 ^ 63 ∧
      ∀ w, (selectCount isOne).whereClause = some w → ∀ row ∈ [[.integer 1]],
        w.passes (tableA.names (onlyTable "t" none)) row = true :=
  let _ := Unicode.ascii
  countStar_iff oneRowDb_ready (by decide +kernel) oneRowDb_tree oneRow_decoded rfl (by decide +kernel)

/-- The row with 1 is counted among those with 2. -/
theorem countStar_ignores_where : let _ := Unicode.ascii
    oneRowDb.pager.Ready ∧ oneRowDb.schema.table "t" = some tableA ∧
    TreeAt oneRowDb.pager 1 tableA.rootPage [Btree.rowLeaf 2 1 oneRecord] ∧
    Decoded (scanned [Btree.rowLeaf 2 1 oneRecord]) [[.integer 1]] ∧
    (simpleCountStar (selectCount isTwo) (.table "t" none)).isSome ∧
    ¬ CountsRows oneRowDb tableA "t" none (selectCount isTwo) [[.integer 1]] := by
  let _ := Unicode.ascii
  have ht : oneRowDb.schema.table "t" = some tableA := by decide +kernel
  have hcount : (simpleCountStar (selectCount isTwo) (.table "t" none)).isSome := by decide +kernel
  refine ⟨oneRowDb_ready, ht, oneRowDb_tree, oneRow_decoded, hcount, fun h => ?_⟩
  obtain ⟨prog, n, hprog, hans, hn⟩ := h
  have hcompile : ∃ prog, compile (.ok (.select (selectCount isTwo))) oneRowDb.schema = .ok prog ∧
      prog.insns = Vdbe.countCode "t" := compile_countStar ht rfl hcount
  obtain ⟨prog', hprog', hcode⟩ := hcompile
  cases hprog.symm.trans hprog'
  obtain ⟨c', hy, -⟩ := BtreeCursor.scan_spec oneRowDb_ready
    (c := (tableCursor tableA.rootPage).attach oneRowDb.pager) (Pager.Reads.refl _) rfl oneRowDb_tree
  have heq := hans.unique (Vdbe.count_finishes ht hcode hy (by decide)).answers
  have hlen : Int64.ofInt (scanned [Btree.rowLeaf 2 1 oneRecord]).length = 1 := by decide +kernel
  have hval : n = 1 := by simpa [hlen] using heq
  rw [hval] at hn
  revert hn
  decide +kernel

example : let _ := Unicode.ascii
    (compile (.ok (.select (selectCount isOne))) oneRowDb.schema).toOption.map (fun prog =>
      outcome (Vdbe.rows 30 30) (Vdbe.fresh prog oneRowDb)) = some (.ok [[.integer 1]]) := by
  decide +kernel

end Sqllite
