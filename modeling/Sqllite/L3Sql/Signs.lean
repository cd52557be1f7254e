import Sqllite.L3Sql.ParserMoves
import Sqllite.L3Sql.Precedence

/-!
# Signs and their tokens

An expression that is parsed has no more subtractions and signs than there were `-` among
the tokens it was parsed from.

* `parseExpr_pays`, `parseStatement_pays`: what is parsed is paid for with tokens.
-/
namespace Sqllite
open Lib Lib.Run

/-- The `-` among the tokens. -/
def minuses (w : List Token) : Nat := w.countP fun t => decide (t.kind = .word .minus)

/-- The subtractions and signs of an expression outside of functions. -/
def Expr.minuses : Expr → Nat
  | .unaryOp .minus e => e.minuses + 1
  | .unaryOp _ e => e.minuses
  | .binaryOp .sub a b => a.minuses + b.minuses + 1
  | .binaryOp _ a b => a.minuses + b.minuses
  | _ => 0

theorem Expr.minuses_binaryOp (op : BinaryOp) (a b : Expr) :
    (Expr.binaryOp op a b).minuses = a.minuses + b.minuses + if op = .sub then 1 else 0 := by
  cases op <;> rfl

theorem Expr.minuses_unaryOp (op : UnaryOp) (e : Expr) :
    (Expr.unaryOp op e).minuses = e.minuses + if op = .minus then 1 else 0 := by
  cases op <;> rfl

/-- The signs in the list of a query. -/
def Select.minuses (s : Select) : Nat := (s.columns.map fun c => c.expr.minuses).sum

def Statement.minuses : Statement → Nat
  | .select s => s.minuses
  | _ => 0

namespace Parser

variable {α β : Type} {k : Nat} {m : ParserM α} {cost : α → Nat}

/-- What `m` gives costs no more than `k` and the `-` it takes. -/
def Pays (k : Nat) (m : ParserM α) (cost : α → Nat) : Prop :=
  ∀ ⦃s a s'⦄, s.pos ≤ s.tokens.length → m s = .ok a s' →
    s'.pos ≤ s'.tokens.length ∧ cost a + minuses s'.left ≤ k + minuses s.left

theorem Pays.pure {a : α} (h : cost a ≤ k) : Pays k (Pure.pure a) cost := by
  intro s b s' hs hrun
  cases hrun
  exact ⟨hs, Nat.add_le_add_right h _⟩

theorem Pays.throw {e : Fault ParseError} : Pays k (throw e : ParserM α) cost := by
  intro s a s' _ hrun
  cases hrun

theorem Pays.bind {f : α → ParserM β} {due : β → Nat} (h : Pays k m cost) (hf : ∀ a, Pays (cost a) (f a) due) :
    Pays k (m >>= f) due := by
  intro s b s' hs hrun
  obtain ⟨a, t, hm, hfa⟩ := bind_eq_ok.mp hrun
  obtain ⟨ht, hle⟩ := h hs hm
  obtain ⟨hs', hle'⟩ := hf a ht hfa
  exact ⟨hs', Nat.le_trans hle' hle⟩

theorem Pays.ite {c : Prop} [Decidable c] {X Y : ParserM α} (hX : Pays k X cost) (hY : Pays k Y cost) :
    Pays k (if c then X else Y) cost := by
  split
  · exact hX
  · exact hY

/-- Tokens that are left were left before. -/
theorem Moves.pays (h : Moves m) : Pays k m fun _ => k := by
  intro s a s' hs hrun
  have hwithin := h s.tokens s.pos s ⟨rfl, Nat.le_refl _, hs⟩
  rw [hrun] at hwithin
  obtain ⟨htokens, hpos, hle⟩ := hwithin
  refine ⟨htokens ▸ hle, Nat.add_le_add_left ?_ k⟩
  have hsuffix : s'.left <:+ s.left := by
    rw [left, left, htokens]
    exact (List.drop_suffix_drop_left s.tokens hpos).map _
  exact hsuffix.sublist.countP_le

/-- A branch on a word; a `-` pays for one more. -/
theorem Pays.branch {w : Word} {X Y : ParserM α} (hX : Pays (k + if w = .minus then 1 else 0) X cost)
    (hY : Pays k Y cost) : Pays k (do if ← matchToken w then X else Y) cost := by
  intro s a s' hs hrun
  by_cases hw : s.left.head? = some (.word w)
  · obtain ⟨t, r, hleft⟩ : ∃ t r, s.left = t :: r := by
      cases hl : s.left with
      | nil =>
        rw [hl] at hw
        cases hw
      | cons t r => exact ⟨t, r, rfl⟩
    rw [hleft] at hw
    obtain rfl := Option.some.inj hw
    have hskip : (s.skip 1).left = r := left_behind (w := [_]) hleft
    have hle : (s.skip 1).pos ≤ (s.skip 1).tokens.length := by
      have hlen := congrArg List.length hleft
      rw [left, List.length_map, List.length_drop, List.length_cons] at hlen
      show s.pos + 1 ≤ s.tokens.length
      omega
    rw [branch_hit hleft] at hrun
    obtain ⟨hs', hpay⟩ := hX hle hrun
    refine ⟨hs', Nat.le_trans hpay ?_⟩
    rw [hskip, hleft, minuses, minuses, List.countP_cons]
    have hkind : (decide ((Token.word w).kind = Kind.word .minus) = true) ↔ w = .minus := by simp [Token.kind]
    simp only [hkind]
    omega
  · rw [branch_miss hw] at hrun
    exact hY hs hrun

theorem commaList_pays (h : ∀ k, Pays k m fun a => k + cost a) :
    ∀ n k, Pays k (commaList m n) fun xs => k + (xs.map cost).sum
  | 0, _ => .throw
  | n + 1, k => by
    refine (h k).bind fun a => .branch ?_ (.pure ?_)
    · refine (commaList_pays h n _).bind fun xs => .pure ?_
      rw [List.map_cons, List.sum_cons]
      simp only [reduceCtorEq, if_false]
      omega
    · rw [List.map_singleton, List.sum_singleton]

/-- A parser of expressions pays for their signs. -/
abbrev PaysExpr (m : ParserM Expr) : Prop := ∀ k, Pays k m fun e => k + e.minuses

theorem operatorLoop_pays {ops : ParserM (Option BinaryOp)} {operand : ParserM Expr}
    (hops : ∀ k, Pays k ops fun o => k + if o = some .sub then 1 else 0) (h : PaysExpr operand) :
    ∀ n k left, Pays (k + left.minuses) (operatorLoop ops operand n left) fun e => k + e.minuses
  | 0, _, _ => .throw
  | n + 1, k, left => by
    refine (hops _).bind fun found => ?_
    cases found with
    | none => exact .pure (Nat.le_refl _)
    | some b =>
      refine (h _).bind fun right => ?_
      have hrest := operatorLoop_pays hops h n k (.binaryOp b left right)
      rw [Expr.minuses_binaryOp] at hrest
      have hsum : k + left.minuses + (if some b = some BinaryOp.sub then 1 else 0) + right.minuses =
          k + (left.minuses + right.minuses + if b = .sub then 1 else 0) := by
        simp only [Option.some.injEq]
        omega
      rw [hsum]
      exact hrest

theorem operatorChain_pays {ops : ParserM (Option BinaryOp)} {operand : ParserM Expr}
    (hops : ∀ k, Pays k ops fun o => k + if o = some .sub then 1 else 0) (h : PaysExpr operand) (n : Nat) :
    PaysExpr (operatorChain ops operand n) := fun k =>
  (h k).bind fun left => operatorLoop_pays hops h n k left

/-- A choice of an operator; `-` is the only word for a subtraction. -/
theorem found_pays {w : Word} {o : Option BinaryOp} {Y : ParserM (Option BinaryOp)} (ho : o = some .sub → w = .minus)
    (hY : ∀ k, Pays k Y fun o => k + if o = some .sub then 1 else 0) (k : Nat) :
    Pays k (do if ← matchToken w then pure o else Y) fun o => k + if o = some .sub then 1 else 0 := by
  refine .branch (.pure ?_) (hY k)
  split
  · rename_i h
    rw [if_pos (ho h)]
  · omega

theorem none_pays (k : Nat) : Pays k (pure none : ParserM (Option BinaryOp)) fun o => k + if o = some .sub then 1 else 0 :=
  .pure (Nat.le_refl _)

theorem error_pays (message : String) : Pays k (error message : ParserM α) cost := by
  intro s a s' _ hrun
  obtain ⟨t, u, -, hthrow⟩ := bind_eq_ok.mp hrun
  cases hthrow

section
variable {expr : ParserM Expr} {select : ParserM Select} {n : Nat} {primary : ParserM Expr}

theorem parseParen_pays [DebugText] (h : PaysExpr expr) (hs : Moves select) : PaysExpr (parseParen expr select) := by
  intro k
  refine .branch (hs.pays.bind fun q => (expect_moves .rParen).pays.bind fun _ => .pure (Nat.le_add_right _ _)) ?_
  exact (h k).bind fun e => (expect_moves .rParen).pays.bind fun _ => .pure (Nat.le_refl _)

theorem parseIdentExpr_pays (h : Moves expr) (name : String) : PaysExpr (parseIdentExpr expr n name) := by
  intro k
  refine .branch ?_ (.branch ?_ (.pure (Nat.le_refl _)))
  · exact ((check_moves .rParen).branch .pure (commaList_moves h n)).pays.bind fun _ =>
      (expect_moves .rParen).pays.bind fun _ => .pure (Nat.le_refl _)
  · exact parseIdent_moves.pays.bind fun _ => .pure (Nat.le_refl _)

theorem parseCount_pays (h : Moves expr) : PaysExpr (parseCount expr n) := fun _ =>
  (expect_moves .lParen).pays.bind fun _ => (matchToken_moves .distinct).pays.bind fun _ =>
    ((matchToken_moves .star).branch .pure (commaList_moves h n)).pays.bind fun _ =>
    (expect_moves .rParen).pays.bind fun _ => .pure (Nat.le_refl _)

theorem parsePrimaryExpr_pays [DebugText] (hm : Moves expr) (h : PaysExpr expr) (hs : Moves select) :
    PaysExpr (parsePrimaryExpr expr select n) := by
  intro k
  refine .branch (.pure (Nat.le_refl _)) (currentToken_moves.pays.bind fun t => ?_)
  split
  case h_6 => exact advance_moves.pays.bind fun _ => parseParen_pays h hs k
  case h_7 => exact advance_moves.pays.bind fun _ => parseCount_pays hm k
  case h_8 | h_9 | h_10 => exact advance_moves.pays.bind fun _ => parseIdentExpr_pays hm _ k
  case h_11 => exact error_pays _
  all_goals exact advance_moves.pays.bind fun _ => .pure (Nat.le_refl _)

theorem parseUnaryExpr_pays (h : PaysExpr primary) : ∀ n, PaysExpr (parseUnaryExpr primary n)
  | 0 => fun _ => .throw
  | n + 1 => fun k => by
    refine .branch ?_ (.branch (parseUnaryExpr_pays h n k) (h k))
    refine (parseUnaryExpr_pays h n _).bind fun e => .pure ?_
    rw [Expr.minuses_unaryOp, if_pos rfl, if_pos rfl]
    omega

theorem parseNotExpr_pays {comparison : ParserM Expr} (h : PaysExpr comparison) :
    ∀ n, PaysExpr (parseNotExpr comparison n)
  | 0 => fun _ => .throw
  | n + 1 => fun k => by
    refine .branch ?_ (h k)
    refine (parseNotExpr_pays h n _).bind fun e => .pure ?_
    rw [Expr.minuses_unaryOp, if_neg (by decide), if_neg (by decide)]
    exact Nat.le_refl _

theorem comparisonOp_pays (k : Nat) : Pays k comparisonOp fun o => k + if o = some .sub then 1 else 0 := by
  have his : ∀ k, Pays k (do if ← matchToken .is then (do if ← matchToken .not then pure (some .isNot) else pure (some .is)) else pure none :
      ParserM (Option BinaryOp)) fun o => k + if o = some .sub then 1 else 0 := fun k =>
    .branch (found_pays (by decide) (fun k => .pure (Nat.le_refl _)) _) (none_pays k)
  unfold comparisonOp
  exact found_pays (by decide) (found_pays (by decide) (found_pays (by decide) (found_pays (by decide) (found_pays (by decide)
    (found_pays (by decide) (found_pays (by decide) (found_pays (by decide) his))))))) k

theorem multiplicativeOp_pays (k : Nat) : Pays k multiplicativeOp fun o => k + if o = some .sub then 1 else 0 := by
  unfold multiplicativeOp
  exact found_pays (by decide) (found_pays (by decide) (found_pays (by decide) none_pays)) k

theorem additiveOp_pays (k : Nat) : Pays k additiveOp fun o => k + if o = some .sub then 1 else 0 := by
  unfold additiveOp
  exact found_pays (by decide) (found_pays (by decide) (found_pays (by decide) none_pays)) k

theorem parseOrExpr_pays (h : PaysExpr primary) (n : Nat) : PaysExpr (parseOrExpr primary n) := by
  have hmul := operatorChain_pays multiplicativeOp_pays (parseUnaryExpr_pays h n) n
  have hadd := operatorChain_pays additiveOp_pays hmul n
  have hcmp := operatorChain_pays comparisonOp_pays hadd n
  have handOp : ∀ k, Pays k andOp fun o => k + if o = some .sub then 1 else 0 := found_pays (by decide) none_pays
  have horOp : ∀ k, Pays k orOp fun o => k + if o = some .sub then 1 else 0 := found_pays (by decide) none_pays
  exact operatorChain_pays horOp (operatorChain_pays handOp (parseNotExpr_pays hcmp n) n) n

variable [DebugText]

theorem parseExpr_pays : ∀ n, PaysExpr (parseExpr n)
  | 0 => fun _ => .throw
  | n + 1 => parseOrExpr_pays (parsePrimaryExpr_pays (parseExpr_moves n) (parseExpr_pays n)
      (parseSelect_moves (parseExpr_moves n))) (n + 1)

theorem parseSelect_pays (k : Nat) : Pays k (parseSelect (parseExpr n) n) fun s => k + s.minuses := by
  have hcolumn : ∀ k, Pays k (parseResultColumn (parseExpr n)) fun c => k + c.expr.minuses := fun k =>
    (parseExpr_pays n k).bind fun e => (optional_moves .as parseIdent_moves).pays.bind fun _ => .pure (Nat.le_refl _)
  have hcolumns : Pays k (parseResultColumns (parseExpr n) n)
      fun cs => k + (cs.map fun c => c.expr.minuses).sum :=
    .branch (.pure (Nat.le_refl _)) (commaList_pays hcolumn n k)
  have h := parseExpr_moves n
  exact (matchToken_moves .distinct).pays.bind fun _ => hcolumns.bind fun _ =>
    (optional_moves .from (parseTableRef_moves h)).pays.bind fun _ => (optional_moves .where h).pays.bind fun _ =>
    (parseListBy_moves .group h).pays.bind fun _ => (optional_moves .having h).pays.bind fun _ =>
    (parseListBy_moves .order (parseOrderTerm_moves h)).pays.bind fun _ =>
    (optional_moves .limit h).pays.bind fun _ => (parseOffset_moves h).pays.bind fun _ => .pure (Nat.le_refl _)

theorem parseCreate_pays (k : Nat) : Pays k (parseCreate n) Statement.minuses :=
  (matchToken_moves .unique).pays.bind fun unique => .branch
    ((parseCreateIndex_moves n unique).pays.bind fun _ => .pure (Nat.zero_le _))
    ((expect_moves .table).pays.bind fun _ => (parseCreateTable_moves n).pays.bind fun _ => .pure (Nat.zero_le _))

/-- The signs in the list of a query are paid for with the tokens of the statement. -/
theorem parseStatement_pays {s s' : Parser} {stmt : Statement} (hs : s.pos ≤ s.tokens.length)
    (h : parseStatement n s = .ok stmt s') : stmt.minuses ≤ minuses s.left := by
  have hpays : Pays 0 (parseStatement n) Statement.minuses := by
    refine .branch ((parseSelect_pays _).bind fun q => .pure ?_) ?_
    · simp [Statement.minuses]
    · exact .branch ((parseInsert_moves n).pays.bind fun _ => .pure (Nat.zero_le _)) <|
        .branch ((parseUpdate_moves n).pays.bind fun _ => .pure (Nat.zero_le _)) <|
        .branch ((parseDelete_moves n).pays.bind fun _ => .pure (Nat.zero_le _)) <|
        .branch (parseCreate_pays _) <|
        .branch ((expect_moves .table).pays.bind fun _ => parseDropTable_moves.pays.bind fun _ => .pure (Nat.zero_le _)) <|
        .branch ((parsePragma_moves n).pays.bind fun _ => .pure (Nat.zero_le _)) <|
        .branch (.pure (Nat.zero_le _)) <| .branch (.pure (Nat.zero_le _)) <|
        .branch (.pure (Nat.zero_le _)) (error_pays _)
  have := (hpays hs h).2
  omega

end

end Parser

end Sqllite
