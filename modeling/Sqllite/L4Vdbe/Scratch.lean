import Sqllite.L4Vdbe.CountStar

/-!
# What the code of an expression reads

The code of an expression works in the registers from its own on. The instruction of an
operator on one operand has 0 for its other register, so a sign subtracts what stands in
register 0.

* `evaluation_same`: the value depends on nothing else.
-/
namespace Sqllite
open Lib Lib.Run Lib.Machine

/-- No sign. -/
def Expr.minusFree : Expr → Bool
  | .unaryOp .minus _ => false
  | .unaryOp _ e => e.minusFree
  | .binaryOp _ l r => l.minusFree && r.minusFree
  | _ => true

/-- A `Not` looks at its first value only. -/
theorem combined_unary {op : UnaryOp} (hop : op ≠ .minus) (a z z' : Value) :
    Vdbe.combined op.opcode a z = Vdbe.combined op.opcode a z' := by
  cases op with
  | minus => exact absurd rfl hop
  | not | plus | bitNot => rfl

/-- Only a sign looks at register 0, and only at the real it reads as. -/
theorem Expr.computedOn_congr {z z' : Value} (e : Expr)
    (h : e.minusFree = true ∨ z.asReal.getD 0 = z'.asReal.getD 0) : e.computedOn z = e.computedOn z' := by
  induction e using Expr.computed.induct with
  | case1 | case2 | case3 => rfl
  | case4 op l r ihl ihr =>
    have hparts : (l.minusFree = true ∨ z.asReal.getD 0 = z'.asReal.getD 0) ∧
        (r.minusFree = true ∨ z.asReal.getD 0 = z'.asReal.getD 0) := by
      rcases h with h | h
      · rw [Expr.minusFree, Bool.and_eq_true] at h
        exact ⟨.inl h.1, .inl h.2⟩
      · exact ⟨.inr h, .inr h⟩
    rw [computedOn, computedOn, ihl hparts.1, ihr hparts.2]
  | case5 op e ih =>
    by_cases hop : op = .minus
    · subst hop
      rcases h with h | h
      · cases h
      · rw [computedOn, computedOn, ih (.inr h)]
        congr 1
        funext a
        show Vdbe.combined .subtract a z = Vdbe.combined .subtract a z'
        rw [Vdbe.combined, Vdbe.combined, h]
    · have hinner : e.minusFree = true ∨ z.asReal.getD 0 = z'.asReal.getD 0 := by
        rcases h with h | h
        · cases op with
          | minus => cases h
          | not | plus | bitNot => exact .inl h
        · exact .inr h
      rw [computedOn, computedOn, ih hinner]
      congr 1
      funext a
      exact combined_unary hop a z z'
  | case6 e h1 h2 h3 h4 h5 =>
    cases e with
    | integer n => exact absurd rfl (h1 n)
    | real x => exact absurd rfl (h2 x)
    | string text => exact absurd rfl (h3 text)
    | binaryOp op l r => exact absurd rfl (h4 op l r)
    | unaryOp op e => exact absurd rfl (h5 op e)
    | _ => rfl

/-- The machine in front of the code of an expression, and nothing else. -/
def evaluation (e : Expr) (r : Nat) (d : Db) (regs : List Value) : Machine :=
  { { Vdbe.new { Program.new with insns := compileExpr e r } with regs := regs }, d with }

namespace Vdbe

section
variable [Unicode] {s t : Machine} {e : Expr} {r : Nat} {d : Db} {regs regs' : List Value}

/-- The code ends with a value in register `r` and the registers below as they were, or
with an error. -/
def Leaves (e : Expr) (r : Nat) (d : Db) (regs : List Value) : Result Value → Prop
  | .ok v => ∃ t, Ends round (evaluation e r d regs) (.ok .done t) ∧ regAt t.regs r = v ∧
      ∀ j < r, regAt t.regs j = regAt regs j
  | .error f => ∃ t, Ends round (evaluation e r d regs) (.error f t)

theorem round_behind (h : s.program.insns[s.pc]? = none) (fuel : Nat) :
    round fuel s = .ok (some .done) s := by
  unfold round
  rw [bind_ok (get_apply s), h]
  rfl

/-- The code leaves what `computedOn` says. -/
theorem evaluation_leaves (e : Expr) (r : Nat) (d : Db) (regs : List Value) :
    Leaves e r d regs (e.computedOn (regAt regs 0)) := by
  have hout : Outcome (evaluation e r d regs) (compileExpr e r) r (e.computedOn (regAt regs 0)) :=
    compileExpr_outcomeOn e r rfl Placed.whole
  cases hv : e.computedOn (regAt regs 0) with
  | error f =>
    rw [hv] at hout
    exact hout
  | ok v =>
    rw [hv] at hout
    obtain ⟨regs', hrun, hval, hlow⟩ := hout
    refine ⟨_, hrun.ends (Ends.answer fun fuel => round_behind ?_ fuel), hval, hlow⟩
    exact List.getElem?_eq_none (Nat.le_of_eq (Nat.zero_add _).symm)

/-- From two register files the code leaves the same, below its register nothing changes. -/
theorem evaluation_same (e : Expr) (r : Nat) (d : Db) (regs regs' : List Value)
    (h : e.minusFree = true ∨ (regAt regs 0).asReal.getD 0 = (regAt regs' 0).asReal.getD 0) :
    ∃ x, Leaves e r d regs x ∧ Leaves e r d regs' x := by
  refine ⟨_, evaluation_leaves e r d regs, ?_⟩
  rw [e.computedOn_congr h]
  exact evaluation_leaves e r d regs'

theorem Leaves.unique {x x' : Result Value} (h : Leaves e r d regs x) (h' : Leaves e r d regs x') :
    x = x' := by
  have hends : ∀ {p q : EStateM.Result (Fault SqlliteError) Machine ResultCode},
      Ends round (evaluation e r d regs) p → Ends round (evaluation e r d regs) q → p = q :=
    fun ⟨k, hk⟩ ⟨l, hl⟩ => (hk 0 (k + l) (by omega)).symm.trans (hl 0 (k + l) (by omega))
  cases x with
  | ok v =>
    cases x' with
    | ok v' =>
      obtain ⟨t, ht, rfl, -⟩ := h
      obtain ⟨t', ht', rfl, -⟩ := h'
      cases hends ht ht'
      rfl
    | error f =>
      obtain ⟨t, ht, -⟩ := h
      obtain ⟨t', ht'⟩ := h'
      cases hends ht ht'
  | error f =>
    obtain ⟨t, ht⟩ := h
    cases x' with
    | ok v' =>
      obtain ⟨t', ht', -⟩ := h'
      cases hends ht ht'
    | error f' =>
      obtain ⟨t', ht'⟩ := h'
      cases hends ht ht'
      rfl

end

/-- `1 + 2` in register 3. -/
theorem evaluation_same_sum : let _ := Unicode.ascii
    ∃ x, Leaves (.binaryOp .add (.integer 1) (.integer 2)) 3 oneRowDb [.null] x ∧
      Leaves (.binaryOp .add (.integer 1) (.integer 2)) 3 oneRowDb [.integer 1] x := by
  intro _
  exact evaluation_same _ 3 oneRowDb [.null] [.integer 1] (.inl rfl)

/-- `-5` in register 1: five less what stands in register 0. -/
theorem evaluation_differs : let _ := Unicode.ascii
    ¬ ∃ x, Leaves (.unaryOp .minus (.integer 5)) 1 oneRowDb [.null] x ∧
      Leaves (.unaryOp .minus (.integer 5)) 1 oneRowDb [.integer 1] x := by
  intro _
  rintro ⟨x, h, h'⟩
  have hvalue := h.unique (evaluation_leaves _ 1 oneRowDb [.null])
  have hvalue' := h'.unique (evaluation_leaves _ 1 oneRowDb [.integer 1])
  have hne : Expr.computedOn .null (.unaryOp .minus (.integer 5)) ≠
      Expr.computedOn (.integer 1) (.unaryOp .minus (.integer 5)) := by decide +kernel
  exact hne (hvalue.symm.trans hvalue')

end Vdbe

end Sqllite
