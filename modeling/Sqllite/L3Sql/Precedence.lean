import Sqllite.L3Sql.ParserReads

/-!
# Printed expressions

An expression is printed with parentheses around every operand that binds less tightly
than its place, or around every application of an operator.

* `parseExpr_print`: either way `parse_expr` takes the whole print and gives the tree
  back.
-/
namespace Sqllite
open Lib Lib.Run Lib.Span

/-! ## Printing -/

/-- How the parts with several tokens are written. -/
structure Spelling where
  name : String → Token
  eq : Word
  name_eq : ∀ s, name s = .ident s ∨ name s = .quotedIdent s ∨ name s = .backtickIdent s
  eq_eq : eq = .eq ∨ eq = .eqEq

/-- The precedence: `OR`, `AND`, `NOT`, comparisons, sums, products, signs, operands. -/
def BinaryOp.level : BinaryOp → Nat
  | .or => 0
  | .and => 1
  | .eq | .notEq | .lt | .le | .gt | .ge | .like | .is | .isNot => 3
  | .add | .sub | .concat => 4
  | .mul | .div | .mod => 5
  | _ => 0

/-- The words of an operator; none for one that the parser does not make. -/
def BinaryOp.words (sp : Spelling) : BinaryOp → List Word
  | .or => [.or]
  | .and => [.and]
  | .eq => [sp.eq]
  | .notEq => [.notEq]
  | .lt => [.lt]
  | .le => [.le]
  | .gt => [.gt]
  | .ge => [.ge]
  | .like => [.like]
  | .is => [.is]
  | .isNot => [.is, .not]
  | .add => [.plus]
  | .sub => [.minus]
  | .concat => [.concat]
  | .mul => [.star]
  | .div => [.slash]
  | .mod => [.percent]
  | _ => []

/-- The operators that the parser makes. -/
def BinaryOp.spoken : BinaryOp → Bool
  | .notLike | .bitAnd | .bitOr | .shl | .shr => false
  | _ => true

/-- The expressions over literals, names and operators. -/
inductive Expr.Printable : Expr → Prop
  | null : Printable .null
  | integer (n : Int64) : Printable (.integer n)
  | real (r : UInt64) : Printable (.real r)
  | string (s : String) : Printable (.string s)
  | blob (b : Bytes) : Printable (.blob b)
  | ident (name : String) : Printable (.ident name)
  | qualifiedIdent (table column : String) : Printable (.qualifiedIdent table column)
  | not {e : Expr} : Printable e → Printable (.unaryOp .not e)
  | minus {e : Expr} : Printable e → Printable (.unaryOp .minus e)
  | binaryOp {op : BinaryOp} {a b : Expr} : op.spoken = true → Printable a → Printable b →
      Printable (.binaryOp op a b)

def inParens (w : List Token) : List Token := .word .lParen :: (w ++ [.word .rParen])

def operatorTokens (sp : Spelling) (op : BinaryOp) : List Token := (op.words sp).map Token.word

/-- The tokens of an expression at a place of precedence `l`, with parentheses where it
binds less tightly. -/
def Expr.print (sp : Spelling) : Nat → Expr → List Token
  | _, .null => [.word .null]
  | _, .integer n => [.integerLit n]
  | _, .real r => [.realLit r]
  | _, .string s => [.stringLit s]
  | _, .blob b => [.blobLit b]
  | _, .ident name => [sp.name name]
  | _, .qualifiedIdent table column => [sp.name table, .word .dot, sp.name column]
  | l, .unaryOp .not e =>
    let w := .word .not :: e.print sp 2
    if 2 < l then inParens w else w
  | l, .unaryOp .minus e =>
    let w := .word .minus :: e.print sp 6
    if 6 < l then inParens w else w
  | l, .binaryOp op a b =>
    let w := a.print sp op.level ++ (operatorTokens sp op ++ b.print sp (op.level + 1))
    if op.level < l then inParens w else w
  | _, _ => []

/-- The tokens of an expression, with parentheses around every operator. -/
def Expr.printFull (sp : Spelling) : Expr → List Token
  | .null => [.word .null]
  | .integer n => [.integerLit n]
  | .real r => [.realLit r]
  | .string s => [.stringLit s]
  | .blob b => [.blobLit b]
  | .ident name => [sp.name name]
  | .qualifiedIdent table column => [sp.name table, .word .dot, sp.name column]
  | .unaryOp .not e => inParens (.word .not :: e.printFull sp)
  | .unaryOp .minus e => inParens (.word .minus :: e.printFull sp)
  | .binaryOp op a b => inParens (a.printFull sp ++ (operatorTokens sp op ++ b.printFull sp))
  | _ => []

/-- The tokens of an operand. -/
inductive Atom (sp : Spelling) : Expr → List Token → Prop
  | null : Atom sp .null [.word .null]
  | integer (n : Int64) : Atom sp (.integer n) [.integerLit n]
  | real (r : UInt64) : Atom sp (.real r) [.realLit r]
  | string (s : String) : Atom sp (.string s) [.stringLit s]
  | blob (b : Bytes) : Atom sp (.blob b) [.blobLit b]
  | ident (name : String) : Atom sp (.ident name) [sp.name name]
  | qualifiedIdent (table column : String) :
      Atom sp (.qualifiedIdent table column) [sp.name table, .word .dot, sp.name column]

/-- The tokens of an expression at a place of precedence `l`, with at least the
parentheses it needs. -/
inductive Printed (sp : Spelling) : Nat → Expr → List Token → Prop
  | atom {l e w} : Atom sp e w → Printed sp l e w
  | paren {l e w} : Printed sp 0 e w → Printed sp l e (inParens w)
  | not {l e w} : l ≤ 2 → Printed sp 2 e w → Printed sp l (.unaryOp .not e) (.word .not :: w)
  | minus {l e w} : l ≤ 6 → Printed sp 6 e w → Printed sp l (.unaryOp .minus e) (.word .minus :: w)
  | binaryOp {l op a b v w} : op.spoken = true → l ≤ op.level → Printed sp op.level a v →
      Printed sp (op.level + 1) b w → Printed sp l (.binaryOp op a b) (v ++ (operatorTokens sp op ++ w))

variable {sp : Spelling} {e : Expr} {l : Nat} {w r : List Token}

theorem Expr.Printable.printed (h : e.Printable) : ∀ l, Printed sp l e (e.print sp l) := by
  induction h with
  | null => exact fun _ => .atom .null
  | integer n => exact fun _ => .atom (.integer n)
  | real r => exact fun _ => .atom (.real r)
  | string s => exact fun _ => .atom (.string s)
  | blob b => exact fun _ => .atom (.blob b)
  | ident name => exact fun _ => .atom (.ident name)
  | qualifiedIdent table column => exact fun _ => .atom (.qualifiedIdent table column)
  | not _ ih =>
    intro l
    rw [Expr.print]
    split
    · exact .paren (.not (Nat.zero_le _) (ih 2))
    · exact .not (by omega) (ih 2)
  | minus _ ih =>
    intro l
    rw [Expr.print]
    split
    · exact .paren (.minus (Nat.zero_le _) (ih 6))
    · exact .minus (by omega) (ih 6)
  | @binaryOp op a b hop _ _ iha ihb =>
    intro l
    rw [Expr.print]
    split
    · exact .paren (.binaryOp hop (Nat.zero_le _) (iha _) (ihb _))
    · exact .binaryOp hop (by omega) (iha _) (ihb _)

theorem Expr.Printable.printedFull (h : e.Printable) : ∀ l, Printed sp l e (e.printFull sp) := by
  induction h with
  | null => exact fun _ => .atom .null
  | integer n => exact fun _ => .atom (.integer n)
  | real r => exact fun _ => .atom (.real r)
  | string s => exact fun _ => .atom (.string s)
  | blob b => exact fun _ => .atom (.blob b)
  | ident name => exact fun _ => .atom (.ident name)
  | qualifiedIdent table column => exact fun _ => .atom (.qualifiedIdent table column)
  | not _ ih => exact fun _ => .paren (.not (Nat.zero_le _) (ih 2))
  | minus _ ih => exact fun _ => .paren (.minus (Nat.zero_le _) (ih 6))
  | binaryOp hop _ _ iha ihb => exact fun _ => .paren (.binaryOp hop (Nat.zero_le _) (iha _) (ihb _))

/-! ## Tokens ahead -/

/-- The precedence of what goes on with an expression behind it; a name goes on with
`(` and `.`. -/
def Word.level : Word → Option Nat
  | .or => some 0
  | .and => some 1
  | .eq | .eqEq | .notEq | .lt | .le | .gt | .ge | .like | .is => some 3
  | .plus | .minus | .concat => some 4
  | .star | .slash | .percent => some 5
  | .lParen | .dot => some 7
  | _ => none

/-- The next token does not go on with an expression of precedence `l`. -/
def Stops (l : Nat) (rest : List Token) : Prop :=
  ∀ w, rest.head? = some (.word w) → ∀ k, w.level = some k → k < l

theorem Stops.mono {j : Nat} (h : Stops l r) (hj : l ≤ j) : Stops j r :=
  fun w hw k hk => Nat.lt_of_lt_of_le (h w hw k hk) hj

theorem Stops.nil : Stops l [] := fun _ h => nomatch h

theorem Stops.not_head (h : Stops l r) {w : Word} {k : Nat} (hw : w.level = some k) (hk : l ≤ k) :
    r.head? ≠ some (.word w) := fun hr => absurd (h w hr k hw) (Nat.not_lt.mpr hk)

/-- The next token can begin an expression of precedence `l`. -/
def Begins (l : Nat) (w : List Token) : Prop :=
  ∃ t r, w = t :: r ∧ ∀ v, t = .word v →
    v = .null ∨ v = .lParen ∨ ((v = .minus ∨ v = .plus) ∧ l ≤ 6) ∨ (v = .not ∧ l ≤ 2)

theorem Begins.append (h : Begins l w) (r : List Token) : Begins l (w ++ r) := by
  obtain ⟨t, u, rfl, ht⟩ := h
  exact ⟨t, u ++ r, rfl, ht⟩

theorem Begins.mono {j : Nat} (h : Begins l w) (hj : j ≤ l) : Begins j w := by
  obtain ⟨t, u, hw, ht⟩ := h
  refine ⟨t, u, hw, fun v hv => ?_⟩
  rcases ht v hv with h | h | ⟨h, hl⟩ | ⟨h, hl⟩
  · exact .inl h
  · exact .inr (.inl h)
  · exact .inr (.inr (.inl ⟨h, Nat.le_trans hj hl⟩))
  · exact .inr (.inr (.inr ⟨h, Nat.le_trans hj hl⟩))

theorem Begins.not_head (h : Begins l w) {v : Word} (hv : v ≠ .null ∧ v ≠ .lParen)
    (hsign : v = .minus ∨ v = .plus → 6 < l) (hnot : v = .not → 2 < l) : w.head? ≠ some (.word v) := by
  obtain ⟨t, u, rfl, ht⟩ := h
  intro hw
  rcases ht v (Option.some.inj hw) with h | h | ⟨h, hl⟩ | ⟨h, hl⟩
  · exact hv.1 h
  · exact hv.2 h
  · exact absurd (hsign h) (Nat.not_lt.mpr hl)
  · exact absurd (hnot h) (Nat.not_lt.mpr hl)

theorem Begins.of_not_word {t : Token} (h : ∀ v, t ≠ .word v) : Begins l (t :: w) :=
  ⟨t, w, rfl, fun v hv => absurd hv (h v)⟩

theorem Spelling.name_not_word (sp : Spelling) (s : String) (v : Word) : sp.name s ≠ .word v := by
  rcases sp.name_eq s with h | h | h <;> rw [h] <;> exact nofun

theorem Atom.begins (h : Atom sp e w) (l : Nat) : Begins l w := by
  cases h with
  | null => exact ⟨_, _, rfl, fun v hv => .inl (Token.word.inj hv).symm⟩
  | integer | real | string | blob => exact .of_not_word nofun
  | ident name => exact .of_not_word (sp.name_not_word name)
  | qualifiedIdent table column => exact .of_not_word (sp.name_not_word table)

theorem Printed.begins (h : Printed sp l e w) : Begins l w := by
  induction h with
  | atom h => exact h.begins _
  | paren _ _ => exact ⟨_, _, rfl, fun v hv => .inr (.inl (Token.word.inj hv).symm)⟩
  | not hl _ _ => exact ⟨_, _, rfl, fun v hv => .inr (.inr (.inr ⟨(Token.word.inj hv).symm, hl⟩))⟩
  | minus hl _ _ => exact ⟨_, _, rfl, fun v hv => .inr (.inr (.inl ⟨.inl (Token.word.inj hv).symm, hl⟩))⟩
  | binaryOp _ hl _ _ iha _ => exact (iha.mono hl).append _

namespace Parser

variable {s : Parser} {t : Token} {α : Type}

/-- The tokens that are left. -/
def left (s : Parser) : List Token := (s.tokens.drop s.pos).map (·.token)

/-- The parser behind `k` more tokens. -/
def skip (s : Parser) (k : Nat) : Parser := { s with pos := s.pos + k }

theorem skip_skip (s : Parser) (j k : Nat) : (s.skip j).skip k = s.skip (j + k) := by
  rw [skip, skip, skip, Nat.add_assoc]

theorem left_skip (s : Parser) (k : Nat) : (s.skip k).left = s.left.drop k := by
  rw [left, left, skip, List.drop_drop.symm, List.map_drop]

theorem left_behind (h : s.left = w ++ r) : (s.skip w.length).left = r := by
  rw [left_skip, h, List.drop_left]

theorem currentToken_left (s : Parser) : currentToken s = .ok s.left.head? s := by
  rw [currentToken_apply, left, List.head?_map, List.head?_drop]

theorem advance_left (h : s.left = t :: r) : ∃ x, advance s = .ok x (s.skip 1) := by
  cases hs : s.tokens[s.pos]? with
  | none =>
    rw [left, List.drop_eq_nil_of_le (List.getElem?_eq_none_iff.mp hs)] at h
    cases h
  | some x => exact ⟨_, advance_apply hs⟩

/-- Behind `advance`. -/
theorem advance_bind (h : s.left = t :: r) (m : ParserM α) :
    (do let _ ← advance; m : ParserM α) s = m (s.skip 1) := by
  obtain ⟨x, hx⟩ := advance_left h
  exact bind_ok hx _

theorem check_left (w : Word) (h : s.left = t :: r) :
    check w s = .ok (decide (t.kind = .word w)) s := by
  rw [check, bind_ok (currentToken_left s), h]
  rfl

theorem kind_eq_word {w : Word} : t.kind = .word w ↔ t = .word w := by
  cases t <;> simp [Token.kind]

theorem matchToken_hit {w : Word} (h : s.left = .word w :: r) :
    matchToken w s = .ok true (s.skip 1) := by
  rw [matchToken, bind_ok (check_left w h), decide_eq_true (kind_eq_word.mpr rfl), if_pos rfl]
  exact advance_bind h _

theorem matchToken_miss {w : Word} (h : s.left.head? ≠ some (.word w)) :
    matchToken w s = .ok false s := by
  have hcheck : check w s = .ok false s := by
    rw [check, bind_ok (currentToken_left s)]
    cases hl : s.left.head? with
    | none => rfl
    | some t =>
      have ht : t.kind ≠ .word w := fun hk => h (by rw [hl, kind_eq_word.mp hk])
      simp [ht]
  rw [matchToken, bind_ok hcheck]
  rfl

variable {X Y : ParserM α}

theorem branch_hit {w : Word} (h : s.left = .word w :: r) :
    (do if ← matchToken w then X else Y : ParserM α) s = X (s.skip 1) := by
  rw [bind_ok (matchToken_hit h), if_pos rfl]

theorem branch_miss {w : Word} (h : s.left.head? ≠ some (.word w)) :
    (do if ← matchToken w then X else Y : ParserM α) s = Y s := by
  rw [bind_ok (matchToken_miss h), if_neg Bool.false_ne_true]

/-- A choice with a known word ahead. -/
theorem branch_word {v w : Word} (h : s.left = .word v :: r) :
    (do if ← matchToken w then X else Y : ParserM α) s = if v = w then X (s.skip 1) else Y s := by
  by_cases hv : v = w
  · subst hv
    rw [branch_hit h, if_pos rfl]
  · rw [branch_miss (by rw [h]; exact fun hw => hv (Token.word.inj (Option.some.inj hw))), if_neg hv]

theorem expect_hit {w : Word} (h : s.left = .word w :: r) : expect w s = .ok () (s.skip 1) := by
  rw [expect, branch_hit h]
  rfl

theorem parseIdent_left (h : s.left = t :: r) {name : String}
    (ht : t = .ident name ∨ t = .quotedIdent name ∨ t = .backtickIdent name) :
    parseIdent s = .ok name (s.skip 1) := by
  rw [parseIdent, bind_ok (currentToken_left s), h]
  rcases ht with rfl | rfl | rfl <;> exact advance_bind h _

/-! ## One level of precedence -/

/-- The operators of a level. -/
def opAt : Nat → ParserM (Option BinaryOp)
  | 0 => orOp
  | 1 => andOp
  | 3 => comparisonOp
  | 4 => additiveOp
  | _ => multiplicativeOp

/-- The parser of a level, its own loop or recursion bounded by `u`. -/
def exprAt (primary : ParserM Expr) (n : Nat) : Nat → Nat → ParserM Expr
  | 0, u => operatorChain orOp (parseAndExpr primary n) u
  | 1, u => operatorChain andOp (parseNotExpr (parseComparisonExpr primary n) n) u
  | 2, u => parseNotExpr (parseComparisonExpr primary n) u
  | 3, u => operatorChain comparisonOp (parseAdditiveExpr primary n) u
  | 4, u => operatorChain additiveOp (parseMultiplicativeExpr primary n) u
  | 5, u => operatorChain multiplicativeOp (parseUnaryExpr primary n) u
  | 6, u => parseUnaryExpr primary u
  | _, _ => primary

/-- The levels with left-associative operators. -/
def IsChain (l : Nat) : Prop := l = 0 ∨ l = 1 ∨ l = 3 ∨ l = 4 ∨ l = 5

theorem level_chain (op : BinaryOp) : IsChain op.level := by
  cases op <;> simp [IsChain, BinaryOp.level]

theorem level_le (op : BinaryOp) : op.level ≤ 5 := by
  rcases level_chain op with h | h | h | h | h <;> omega

theorem words_stop {op : BinaryOp} (hop : op.spoken = true) (r : List Token) :
    0 < (operatorTokens sp op).length ∧ Stops (op.level + 1) (operatorTokens sp op ++ r) := by
  cases op with
  | notLike | bitAnd | bitOr | shl | shr => cases hop
  | eq =>
    rcases sp.eq_eq with heq | heq
    all_goals
      refine ⟨Nat.zero_lt_succ _, fun w hw k hk => ?_⟩
      rw [operatorTokens, BinaryOp.words, heq] at hw
      cases hw
      cases hk
      decide
  | _ =>
    refine ⟨Nat.zero_lt_succ _, fun w hw k hk => ?_⟩
    cases hw
    cases hk
    decide

/-- `NOT` behind an operator is part of it: an operand of a comparison does not begin so. -/
theorem operand_not {op : BinaryOp} {b : Expr} {w : List Token} (h : Printed sp (op.level + 1) b w)
    (hop : op = .is) : w.head? ≠ some (.word .not) :=
  h.begins.not_head (by decide) nofun fun _ => by rw [hop]; decide

theorem exprAt_chain {primary : ParserM Expr} {n u : Nat} (hl : IsChain l) :
    exprAt primary n l u = operatorChain (opAt l) (exprAt primary n (l + 1) n) u := by
  rcases hl with rfl | rfl | rfl | rfl | rfl <;> rfl

theorem opAt_stops (hl : IsChain l) (h : Stops l s.left) : opAt l s = .ok none s := by
  have hmiss : ∀ {w : Word}, w.level = some l → s.left.head? ≠ some (.word w) :=
    fun hw => h.not_head hw (Nat.le_refl l)
  rcases hl with rfl | rfl | rfl | rfl | rfl
  · exact branch_miss (hmiss rfl)
  · exact branch_miss (hmiss rfl)
  · have hrun : comparisonOp s = (pure none : ParserM (Option BinaryOp)) s := by
      rw [comparisonOp, branch_miss (hmiss rfl), branch_miss (hmiss rfl), branch_miss (hmiss rfl),
        branch_miss (hmiss rfl), branch_miss (hmiss rfl), branch_miss (hmiss rfl),
        branch_miss (hmiss rfl), branch_miss (hmiss rfl), branch_miss (hmiss rfl)]
    exact hrun
  · have hrun : additiveOp s = (pure none : ParserM (Option BinaryOp)) s := by
      rw [additiveOp, branch_miss (hmiss rfl), branch_miss (hmiss rfl), branch_miss (hmiss rfl)]
    exact hrun
  · have hrun : multiplicativeOp s = (pure none : ParserM (Option BinaryOp)) s := by
      rw [multiplicativeOp, branch_miss (hmiss rfl), branch_miss (hmiss rfl), branch_miss (hmiss rfl)]
    exact hrun

/-- The words of an operator are taken; `IS` where no `NOT` is behind it. -/
theorem opAt_words {op : BinaryOp} (hop : op.spoken = true)
    (h : s.left = operatorTokens sp op ++ r) (hr : op = .is → r.head? ≠ some (.word .not)) :
    opAt op.level s = .ok (some op) (s.skip (operatorTokens sp op).length) := by
  have hnot : ∀ {u}, s.left = .word .is :: u → (s.skip 1).left = u := fun hs => by
    rw [left_skip, hs]
    rfl
  cases op with
  | notLike | bitAnd | bitOr | shl | shr => cases hop
  | eq =>
    rcases sp.eq_eq with heq | heq
    all_goals
      simp only [operatorTokens, BinaryOp.words, heq, List.map_cons, List.map_nil,
        List.cons_append, List.nil_append] at h
      simp only [BinaryOp.level, opAt, comparisonOp, branch_word h, reduceCtorEq, if_true, if_false]
      rfl
  | is =>
    simp only [operatorTokens, BinaryOp.words, List.map_cons, List.map_nil, List.cons_append,
      List.nil_append] at h
    have hmiss := branch_miss (w := .not) (X := pure (some BinaryOp.isNot)) (Y := pure (some .is))
      (s := s.skip 1) (by rw [hnot h]; exact hr rfl)
    simp only [BinaryOp.level, opAt, comparisonOp, branch_word h, reduceCtorEq, if_true, if_false]
    exact hmiss
  | isNot =>
    simp only [operatorTokens, BinaryOp.words, List.map_cons, List.map_nil, List.cons_append,
      List.nil_append] at h
    have hhit := branch_hit (X := pure (some BinaryOp.isNot)) (Y := pure (some .is))
      (hnot h)
    simp only [BinaryOp.level, opAt, comparisonOp, branch_word h, reduceCtorEq, if_true, if_false]
    rw [hhit, skip_skip]
    rfl
  | or | and | notEq | lt | le | gt | ge | like | add | sub | concat | mul | div | mod =>
    simp only [operatorTokens, BinaryOp.words, List.map_cons, List.map_nil, List.cons_append,
      List.nil_append] at h
    simp only [BinaryOp.level, opAt, orOp, andOp, comparisonOp, additiveOp, multiplicativeOp,
      branch_word h, reduceCtorEq, if_true, if_false]
    rfl

/-! ## A print is taken -/

theorem parseIdentExpr_stops {expr : ParserM Expr} {n : Nat} (name : String) (h : Stops 7 s.left) :
    parseIdentExpr expr n name s = .ok (.ident name) s := by
  rw [parseIdentExpr, branch_miss (h.not_head (k := 7) rfl (Nat.le_refl 7)),
    branch_miss (h.not_head (k := 7) rfl (Nat.le_refl 7))]
  rfl

section
variable [DebugText]

/-- The operands inside of which `n` more rounds are left. -/
def primaryAt (n : Nat) : ParserM Expr :=
  parsePrimaryExpr (parseExpr n) (parseSelect (parseExpr n) n) n

/-- The parser of level `l` takes `w` and gives `e`. -/
def Takes (l : Nat) (e : Expr) (w : List Token) : Prop :=
  ∀ ⦃n u : Nat⦄ ⦃s : Parser⦄ ⦃r : List Token⦄, w.length ≤ n → w.length < u → s.left = w ++ r →
    Stops l r → exprAt (primaryAt n) (n + 1) l u s = .ok e (s.skip w.length)

/-- The parser of level `l` takes `w` and is in its loop, with `e` in front. -/
def Feeds (l : Nat) (e : Expr) (w : List Token) : Prop :=
  ∀ ⦃n u : Nat⦄ ⦃s : Parser⦄ ⦃r : List Token⦄, w.length ≤ n → w.length < u → s.left = w ++ r →
    Stops (l + 1) r → ∃ m, u ≤ m + w.length ∧ exprAt (primaryAt n) (n + 1) l u s =
      operatorLoop (opAt l) (exprAt (primaryAt n) (n + 1) (l + 1) (n + 1)) m e (s.skip w.length)

theorem Feeds.takes (hl : IsChain l) (h : Feeds l e w) : Takes l e w := by
  intro n u s r hn hu hs hr
  obtain ⟨m, hm, hrun⟩ := h hn hu hs (hr.mono (Nat.le_succ l))
  obtain ⟨m, rfl⟩ : ∃ k, m = k + 1 := ⟨m - 1, by omega⟩
  have hstop : Stops l (s.skip w.length).left := by
    rw [left_behind hs]
    exact hr
  rw [hrun, operatorLoop, bind_ok (opAt_stops hl hstop)]
  rfl

theorem Takes.feeds (hl : IsChain l) (h : Takes (l + 1) e w) : Feeds l e w := by
  intro n u s r hn _ hs hr
  refine ⟨u, Nat.le_add_right u _, ?_⟩
  rw [exprAt_chain hl, operatorChain, bind_ok (h hn (Nat.lt_succ_of_le hn) hs hr)]

/-- An expression of a level is one of every looser level, unless the looser level takes
its first token. -/
theorem Takes.loosen (hl : l ≤ 6) (hb : Begins (l + 1) w) (h : Takes (l + 1) e w) : Takes l e w := by
  by_cases hchain : IsChain l
  · exact (h.feeds hchain).takes hchain
  · have hcases : l = 2 ∨ l = 6 := by
      unfold IsChain at hchain
      omega
    intro n u s r hn hu hs hr
    obtain ⟨v, rfl⟩ : ∃ k, u = k + 1 := ⟨u - 1, by omega⟩
    have hmiss : ∀ {v : Word}, (v ≠ .null ∧ v ≠ .lParen) → (v = .minus ∨ v = .plus → 6 < l + 1) →
        (v = .not → 2 < l + 1) → s.left.head? ≠ some (.word v) := fun hv hsign hnot => by
      rw [hs]
      exact (hb.append r).not_head hv hsign hnot
    have htake := h hn (Nat.lt_succ_of_le hn) hs (hr.mono (Nat.le_succ l))
    rcases hcases with rfl | rfl
    · have hnot : s.left.head? ≠ some (.word .not) :=
        hmiss (by decide) (fun h => absurd h (by decide)) fun _ => Nat.lt_succ_self 2
      exact (branch_miss hnot).trans htake
    · have hminus : s.left.head? ≠ some (.word .minus) :=
        hmiss (by decide) (fun _ => Nat.lt_succ_self 6) fun h => by cases h
      have hplus : s.left.head? ≠ some (.word .plus) :=
        hmiss (by decide) (fun _ => Nat.lt_succ_self 6) fun h => by cases h
      exact (branch_miss hminus).trans ((branch_miss hplus).trans htake)

theorem Takes.down {k : Nat} (h : Takes k e w) (hb : Begins k w) (hk : k ≤ 7) :
    ∀ {j}, j ≤ k → Takes j e w := by
  intro j hj
  induction hj using Nat.decreasingInduction with
  | self => exact h
  | of_succ j hj ih => exact Takes.loosen (by omega) (hb.mono hj) ih

/-- What holds of a print at every level up to its own. -/
theorem takes_all {k : Nat} (h : Takes k e w) (hb : Begins k w) (hk : k ≤ 7) (hchain : ¬ IsChain k) {l : Nat}
    (hl : l ≤ k) : Takes l e w ∧ (IsChain l → Feeds l e w) := by
  refine ⟨h.down hb hk hl, fun hc => ?_⟩
  have hne : l ≠ k := fun he => hchain (he ▸ hc)
  exact (h.down hb hk (Nat.lt_of_le_of_ne hl hne)).feeds hc

/-! ### Operands -/

theorem primary_name {expr : ParserM Expr} {select : ParserM Select} {n : Nat} {name : String}
    (ht : t = .ident name ∨ t = .quotedIdent name ∨ t = .backtickIdent name) (h : s.left = t :: r) :
    parsePrimaryExpr expr select n s = parseIdentExpr expr n name (s.skip 1) := by
  have hnull : s.left.head? ≠ some (.word .null) := by
    rw [h]
    rcases ht with rfl | rfl | rfl <;> exact nofun
  rw [parsePrimaryExpr, branch_miss hnull, bind_ok (currentToken_left s), h]
  rcases ht with rfl | rfl | rfl <;> exact advance_bind h _

theorem takes_ident {name : String} (ht : t = .ident name ∨ t = .quotedIdent name ∨ t = .backtickIdent name) :
    Takes 7 (.ident name) [t] := by
  intro n u s r _ _ hs hr
  have hbehind : (s.skip 1).left = r := left_behind (w := [t]) hs
  show parsePrimaryExpr _ _ _ s = _
  rw [primary_name ht hs]
  exact parseIdentExpr_stops name (by rw [hbehind]; exact hr)

theorem takes_qualifiedIdent {t' : Token} {table column : String}
    (ht : t = .ident table ∨ t = .quotedIdent table ∨ t = .backtickIdent table)
    (ht' : t' = .ident column ∨ t' = .quotedIdent column ∨ t' = .backtickIdent column) :
    Takes 7 (.qualifiedIdent table column) [t, .word .dot, t'] := by
  intro n u s r _ _ hs hr
  have hdot : (s.skip 1).left = .word .dot :: t' :: r := left_behind (w := [_]) hs
  have hcol : ((s.skip 1).skip 1).left = t' :: r := left_behind (w := [_]) hdot
  show parsePrimaryExpr _ _ _ s = _
  rw [primary_name ht hs, parseIdentExpr, branch_word hdot, if_neg (by decide), branch_word hdot, if_pos rfl,
    bind_ok (parseIdent_left hcol ht')]
  rfl

theorem atom_takes (h : Atom sp e w) : Takes 7 e w := by
  intro n u s r hn hu hs hr
  have hnull : ∀ {t : Token} {u : List Token}, s.left = t :: u → (∀ v, t ≠ .word v) →
      s.left.head? ≠ some (.word .null) := fun ht hv => by
    rw [ht]
    exact fun hn => hv _ (Option.some.inj hn)
  show parsePrimaryExpr _ _ _ s = _
  cases h with
  | null => exact branch_hit hs
  | integer | real | string | blob =>
    rw [parsePrimaryExpr, branch_miss (hnull hs nofun), bind_ok (currentToken_left s), hs]
    exact advance_bind hs _
  | ident name => exact takes_ident (sp.name_eq name) hn hu hs hr
  | qualifiedIdent table column =>
    exact takes_qualifiedIdent (sp.name_eq table) (sp.name_eq column) hn hu hs hr

/-- A print in parentheses is an operand. -/
theorem takes_paren (hb : Begins 0 w) (h : Takes 0 e w) : Takes 7 e (inParens w) := by
  intro n u s r hn _ hs _
  rw [inParens, List.length_cons, List.length_append, List.length_singleton] at hn
  obtain ⟨m, rfl⟩ : ∃ k, n = k + 1 := ⟨n - 1, by omega⟩
  have hs : s.left = .word .lParen :: (w ++ (.word .rParen :: r)) := by
    rw [hs, inParens, List.cons_append, List.append_assoc]
    rfl
  have hinner : (s.skip 1).left = w ++ (.word .rParen :: r) := left_behind (w := [_]) hs
  have hselect : (s.skip 1).left.head? ≠ some (.word .select) := by
    rw [hinner]
    exact (hb.append _).not_head (by decide) nofun nofun
  have hexpr : parseExpr (m + 1) (s.skip 1) = .ok e ((s.skip 1).skip w.length) :=
    h (by omega) (by omega) hinner fun v hv => by
      cases hv
      exact nofun
  have hclose : ((s.skip 1).skip w.length).left = .word .rParen :: r := left_behind hinner
  show parsePrimaryExpr _ _ _ s = _
  rw [parsePrimaryExpr, branch_word hs, if_neg (by decide), bind_ok (currentToken_left s), hs]
  show (do let _ ← advance; parseParen _ _ : ParserM Expr) s = _
  rw [advance_bind hs, parseParen, branch_miss hselect, bind_ok hexpr, bind_ok (expect_hit hclose),
    skip_skip, skip_skip]
  have hlen : (inParens w).length = 1 + w.length + 1 := by
    rw [inParens, List.length_cons, List.length_append, List.length_singleton]
    omega
  rw [hlen]
  rfl

theorem feeds_binaryOp {op : BinaryOp} {a b : Expr} {v w : List Token} (hop : op.spoken = true)
    (ha : Feeds op.level a v) (hb : Takes (op.level + 1) b w) (hw : Begins (op.level + 1) w) :
    Feeds op.level (.binaryOp op a b) (v ++ (operatorTokens sp op ++ w)) := by
  intro n u s r hn hu hs hr
  obtain ⟨hpos, hstop⟩ : 0 < (operatorTokens sp op).length ∧
      Stops (op.level + 1) (operatorTokens sp op ++ (w ++ r)) := words_stop hop (w ++ r)
  simp only [List.length_append] at hn hu ⊢
  rw [List.append_assoc, List.append_assoc] at hs
  obtain ⟨m, hm, hrun⟩ := ha (n := n) (u := u) (by omega) (by omega) hs hstop
  obtain ⟨m, rfl⟩ : ∃ k, m = k + 1 := ⟨m - 1, by omega⟩
  refine ⟨m, by omega, hrun.trans ?_⟩
  -- the operator, then its right operand, then the loop goes on
  have hwords : (s.skip v.length).left = operatorTokens sp op ++ (w ++ r) := left_behind hs
  have hright := left_behind hwords
  have hnot : op = .is → (w ++ r).head? ≠ some (.word .not) := fun his =>
    (hw.append r).not_head (by decide) nofun fun _ => by rw [his]; decide
  have hoperand := hb (n := n) (u := n + 1) (by omega) (by omega) hright hr
  rw [operatorLoop, bind_ok (opAt_words hop hwords hnot)]
  refine (bind_ok hoperand _).trans ?_
  rw [skip_skip, skip_skip]

theorem takes_not (h : Takes 2 e w) : Takes 2 (.unaryOp .not e) (.word .not :: w) := by
  intro n u s r hn hu hs hr
  obtain ⟨v, rfl⟩ : ∃ k, u = k + 1 := ⟨u - 1, by omega⟩
  rw [List.length_cons] at hn hu
  have hinner := h (n := n) (by omega) (Nat.lt_of_succ_lt_succ hu) (left_behind (w := [_]) hs) hr
  rw [skip_skip, List.length_singleton, Nat.add_comm 1] at hinner
  exact (branch_hit hs).trans (bind_ok hinner _)

theorem takes_minus (h : Takes 6 e w) : Takes 6 (.unaryOp .minus e) (.word .minus :: w) := by
  intro n u s r hn hu hs hr
  obtain ⟨v, rfl⟩ : ∃ k, u = k + 1 := ⟨u - 1, by omega⟩
  rw [List.length_cons] at hn hu
  have hinner := h (n := n) (by omega) (Nat.lt_of_succ_lt_succ hu) (left_behind (w := [_]) hs) hr
  rw [skip_skip, List.length_singleton, Nat.add_comm 1] at hinner
  exact (branch_hit hs).trans (bind_ok hinner _)

theorem takes_plus (h : Takes 6 e w) : Takes 6 e (.word .plus :: w) := by
  intro n u s r hn hu hs hr
  obtain ⟨v, rfl⟩ : ∃ k, u = k + 1 := ⟨u - 1, by omega⟩
  rw [List.length_cons] at hn hu
  have hinner := h (n := n) (by omega) (Nat.lt_of_succ_lt_succ hu) (left_behind (w := [_]) hs) hr
  rw [skip_skip, List.length_singleton, Nat.add_comm 1] at hinner
  have hminus : s.left.head? ≠ some (.word .minus) := by
    rw [hs]
    exact nofun
  exact (branch_miss hminus).trans ((branch_hit hs).trans hinner)

/-- A print is taken at every level up to its own; at a level with operators the parser
is in its loop behind it. -/
theorem printed_takes (h : Printed sp l e w) (hl : l ≤ 7) :
    Takes l e w ∧ (IsChain l → Feeds l e w) := by
  have hseven : ¬ IsChain 7 := by simp [IsChain]
  induction h with
  | atom h => exact takes_all (atom_takes h) (h.begins 7) (Nat.le_refl 7) hseven hl
  | @paren l e w h ih =>
    have hbegins : Begins 7 (inParens w) := (Printed.paren (l := 7) h).begins
    exact takes_all (takes_paren h.begins (ih (Nat.zero_le 7)).1) hbegins (Nat.le_refl 7) hseven hl
  | not hle h ih =>
    have hbegins := (Printed.not (Nat.le_refl 2) h).begins
    exact takes_all (takes_not (ih (by omega)).1) hbegins (by omega) (by simp [IsChain]) hle
  | minus hle h ih =>
    have hbegins := (Printed.minus (Nat.le_refl 6) h).begins
    exact takes_all (takes_minus (ih (by omega)).1) hbegins (by omega) (by simp [IsChain]) hle
  | @binaryOp l op a b v w hop hle ha hb iha ihb =>
    have hlevel := level_le op
    have hchain := level_chain op
    have hfeeds : Feeds op.level (.binaryOp op a b) (v ++ (operatorTokens sp op ++ w)) :=
      feeds_binaryOp hop ((iha (by omega)).2 hchain) (ihb (by omega)).1 hb.begins
    have htakes := hfeeds.takes hchain
    have hbegins := (Printed.binaryOp hop (Nat.le_refl _) ha hb).begins
    refine ⟨htakes.down hbegins (by omega) hle, fun hc => ?_⟩
    rcases Nat.lt_or_eq_of_le hle with hlt | rfl
    · exact (htakes.down hbegins (by omega) hlt).feeds hc
    · exact hfeeds

theorem parseExpr_printed {tokens : List SpannedToken} {n : Nat} (h : Printed sp 0 e (tokens.map (·.token)))
    (hn : tokens.length < n) :
    parseExpr n (new tokens) = .ok e { tokens := tokens, pos := tokens.length } := by
  obtain ⟨m, rfl⟩ : ∃ k, n = k + 1 := ⟨n - 1, by omega⟩
  have hleft : (new tokens).left = tokens.map (·.token) ++ [] := (List.append_nil _).symm
  have hrun := (printed_takes h (Nat.zero_le 7)).1 (n := m) (u := m + 1)
    (by rw [List.length_map]; omega) (by rw [List.length_map]; exact hn) hleft Stops.nil
  rw [List.length_map] at hrun
  rw [show (new tokens).skip tokens.length = { tokens := tokens, pos := tokens.length } by
    rw [new, skip, Nat.zero_add]] at hrun
  exact hrun

/-- `parse_expr` takes the whole print of an expression, with few parentheses or with
all of them, and gives the expression back. -/
theorem parseExpr_print (sp : Spelling) (e : Expr) (he : e.Printable) (tokens : List SpannedToken)
    (n : Nat) (hn : tokens.length < n)
    (hprint : tokens.map (·.token) = e.print sp 0 ∨ tokens.map (·.token) = e.printFull sp) :
    parseExpr n (new tokens) = .ok e { tokens := tokens, pos := tokens.length } := by
  rcases hprint with h | h
  · exact parseExpr_printed (h ▸ he.printed 0) hn
  · exact parseExpr_printed (h ▸ he.printedFull 0) hn

end

/-- Names without quotes, `=` with one character. -/
def plain : Spelling where
  name := .ident
  eq := .eq
  name_eq _ := .inl rfl
  eq_eq := .inl rfl

/-- `NOT a - (b - 1) = - 2`. -/
theorem parseExpr_print_not : let _ : DebugText := ⟨fun _ => ""⟩
    let tokens : List SpannedToken := [.word .not, .ident "a", .word .minus, .word .lParen, .ident "b",
      .word .minus, .integerLit 1, .word .rParen, .word .eq, .word .minus, .integerLit 2].map (⟨·, 0, 0⟩)
    parseExpr 12 (new tokens) = .ok (.unaryOp .not (.binaryOp .eq (.binaryOp .sub (.ident "a")
      (.binaryOp .sub (.ident "b") (.integer 1))) (.unaryOp .minus (.integer 2))))
      { tokens := tokens, pos := 11 } := by
  intro _ tokens
  exact parseExpr_print plain _ (.not (.binaryOp rfl (.binaryOp rfl (.ident "a")
    (.binaryOp rfl (.ident "b") (.integer 1))) (.minus (.integer 2)))) tokens 12 (by decide) (.inl rfl)

end Parser

end Sqllite
