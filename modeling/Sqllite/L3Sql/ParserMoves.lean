import Sqllite.L3Sql.ParserReads

/-!
# The parser moves on

However a parser ends, it is behind where it was, within the tokens; where it returns it
is behind at least one token more.

* `parsers_advance`: so are the statement parser and every expression parser, without a
  panic, and the loop of `parse` ends with its statements or an error.
-/
namespace Sqllite
open Lib Lib.Run Lib.Predictive

namespace Parser

/-- The parser is in the tokens `T`, at `p` or behind. -/
def Within (T : List SpannedToken) (p : Nat) (s : Parser) : Prop :=
  s.tokens = T ∧ p ≤ s.pos ∧ s.pos ≤ T.length

/-- However `m` ends, the parser is not in front of where it was. -/
def Moves {α : Type} (m : ParserM α) : Prop := ∀ T p, Keeps (Within T p) m

variable {α β : Type} {m : ParserM α}

theorem Moves.pure {a : α} : Moves (Pure.pure a : ParserM α) := fun _ _ => .pure

theorem Moves.throw {e : Fault ParseError} : Moves (throw e : ParserM α) := fun _ _ => .throw

theorem Moves.get : Moves (get : ParserM Parser) := fun _ _ => .get

theorem Moves.bind {f : α → ParserM β} (h : Moves m) (hf : ∀ a, Moves (f a)) : Moves (m >>= f) :=
  fun T p => (h T p).bind fun a => hf a T p

theorem Moves.ite {c : Prop} [Decidable c] {X Y : ParserM α} (hX : Moves X) (hY : Moves Y) :
    Moves (if c then X else Y) := by
  split
  · exact hX
  · exact hY

theorem Moves.branch {b : ParserM Bool} {X Y : ParserM α} (h : Moves b) (hX : Moves X) (hY : Moves Y) :
    Moves (do if ← b then X else Y) := h.bind fun _ => hX.ite hY

theorem advance_moves : Moves advance := by
  intro T p
  refine Keeps.bind (Keeps.modify ?_) fun _ => (Moves.get.bind fun s => .ite .throw .pure) T p
  rintro s ⟨htokens, hp, hle⟩
  by_cases hend : s.isAtEnd = true
  · rw [if_pos hend]
    exact ⟨htokens, hp, hle⟩
  · rw [if_neg hend]
    have hlt : s.pos < s.tokens.length := Nat.not_le.mp (of_decide_eq_false (eq_false_of_ne_true hend))
    rw [htokens] at hlt
    exact ⟨htokens, Nat.le_succ_of_le hp, hlt⟩

theorem currentToken_moves : Moves currentToken := Moves.get.bind fun _ => .pure

theorem check_moves (w : Word) : Moves (check w) := currentToken_moves.bind fun _ => .pure

theorem matchToken_moves (w : Word) : Moves (matchToken w) :=
  (check_moves w).branch (advance_moves.bind fun _ => .pure) .pure

theorem error_moves (message : String) : Moves (error message : ParserM α) :=
  currentToken_moves.bind fun _ => .throw

theorem expect_moves (w : Word) : Moves (expect w) := (matchToken_moves w).branch .pure (error_moves _)

theorem parseIdent_moves : Moves parseIdent := by
  refine currentToken_moves.bind fun t => ?_
  split
  · exact advance_moves.bind fun _ => .pure
  · exact advance_moves.bind fun _ => .pure
  · exact advance_moves.bind fun _ => .pure
  · exact error_moves _

theorem optional_moves (w : Word) (h : Moves m) : Moves (optional w m) :=
  (matchToken_moves w).branch (h.bind fun _ => .pure) .pure

theorem commaList_moves (h : Moves m) : ∀ n, Moves (commaList m n)
  | 0 => .throw
  | n + 1 => h.bind fun _ => (matchToken_moves .comma).branch
      ((commaList_moves h n).bind fun _ => .pure) .pure

/-! ## Expressions -/

theorem operatorLoop_moves {ops : ParserM (Option BinaryOp)} {operand : ParserM Expr} (hops : Moves ops)
    (h : Moves operand) : ∀ n left, Moves (operatorLoop ops operand n left)
  | 0, _ => .throw
  | n + 1, left => by
    refine hops.bind fun found => ?_
    cases found with
    | none => exact .pure
    | some b => exact h.bind fun right => operatorLoop_moves hops h n _

theorem operatorChain_moves {ops : ParserM (Option BinaryOp)} {operand : ParserM Expr} (hops : Moves ops)
    (h : Moves operand) (n : Nat) : Moves (operatorChain ops operand n) :=
  h.bind fun _ => operatorLoop_moves hops h n _

/-- A choice of an operator. -/
theorem found_moves {w : Word} {o : Option BinaryOp} {Y : ParserM (Option BinaryOp)} (hY : Moves Y) :
    Moves (do if ← matchToken w then pure o else Y) := (matchToken_moves w).branch .pure hY

section
variable {expr : ParserM Expr} {select : ParserM Select} {n : Nat}

theorem parseIdentExpr_moves (h : Moves expr) (name : String) : Moves (parseIdentExpr expr n name) :=
  (matchToken_moves .lParen).branch
    (((check_moves .rParen).branch .pure (commaList_moves h n)).bind fun _ =>
      (expect_moves .rParen).bind fun _ => .pure)
    ((matchToken_moves .dot).branch (parseIdent_moves.bind fun _ => .pure) .pure)

theorem parseCount_moves (h : Moves expr) : Moves (parseCount expr n) :=
  (expect_moves .lParen).bind fun _ => (matchToken_moves .distinct).bind fun _ =>
    ((matchToken_moves .star).branch .pure (commaList_moves h n)).bind fun _ =>
    (expect_moves .rParen).bind fun _ => .pure

variable [DebugText]

theorem parseParen_moves (h : Moves expr) (hs : Moves select) : Moves (parseParen expr select) :=
  (matchToken_moves .select).branch (hs.bind fun _ => (expect_moves .rParen).bind fun _ => .pure)
    (h.bind fun _ => (expect_moves .rParen).bind fun _ => .pure)

theorem parsePrimaryExpr_moves (h : Moves expr) (hs : Moves select) :
    Moves (parsePrimaryExpr expr select n) := by
  refine (matchToken_moves .null).branch .pure (currentToken_moves.bind fun t => ?_)
  split
  case h_6 => exact advance_moves.bind fun _ => parseParen_moves h hs
  case h_7 => exact advance_moves.bind fun _ => parseCount_moves h
  case h_8 | h_9 | h_10 => exact advance_moves.bind fun _ => parseIdentExpr_moves h _
  case h_11 => exact error_moves _
  all_goals exact advance_moves.bind fun _ => .pure

end

section
variable {primary : ParserM Expr}

theorem parseUnaryExpr_moves (h : Moves primary) : ∀ n, Moves (parseUnaryExpr primary n)
  | 0 => .throw
  | n + 1 => (matchToken_moves .minus).branch ((parseUnaryExpr_moves h n).bind fun _ => .pure)
      ((matchToken_moves .plus).branch (parseUnaryExpr_moves h n) h)

theorem parseMultiplicativeExpr_moves (h : Moves primary) (n : Nat) :
    Moves (parseMultiplicativeExpr primary n) :=
  operatorChain_moves (found_moves (found_moves (found_moves .pure))) (parseUnaryExpr_moves h n) n

theorem parseAdditiveExpr_moves (h : Moves primary) (n : Nat) : Moves (parseAdditiveExpr primary n) :=
  operatorChain_moves (found_moves (found_moves (found_moves .pure)))
    (parseMultiplicativeExpr_moves h n) n

theorem comparisonOp_moves : Moves comparisonOp :=
  found_moves <| found_moves <| found_moves <| found_moves <| found_moves <| found_moves <|
    found_moves <| found_moves <| (matchToken_moves .is).branch (found_moves .pure) .pure

theorem parseComparisonExpr_moves (h : Moves primary) (n : Nat) : Moves (parseComparisonExpr primary n) :=
  operatorChain_moves comparisonOp_moves (parseAdditiveExpr_moves h n) n

theorem parseNotExpr_moves {comparison : ParserM Expr} (h : Moves comparison) :
    ∀ n, Moves (parseNotExpr comparison n)
  | 0 => .throw
  | n + 1 => (matchToken_moves .not).branch ((parseNotExpr_moves h n).bind fun _ => .pure) h

theorem parseAndExpr_moves (h : Moves primary) (n : Nat) : Moves (parseAndExpr primary n) :=
  operatorChain_moves (found_moves .pure) (parseNotExpr_moves (parseComparisonExpr_moves h n) n) n

theorem parseOrExpr_moves (h : Moves primary) (n : Nat) : Moves (parseOrExpr primary n) :=
  operatorChain_moves (found_moves .pure) (parseAndExpr_moves h n) n

end

/-! ## Queries -/

section
variable {expr : ParserM Expr} {n : Nat}

theorem parseResultColumns_moves (h : Moves expr) : Moves (parseResultColumns expr n) :=
  (matchToken_moves .star).branch .pure <| commaList_moves
    (h.bind fun _ => (optional_moves .as parseIdent_moves).bind fun _ => .pure) n

theorem parseAlias_moves : Moves parseAlias := by
  have hident : Moves checkIdent := currentToken_moves.bind fun _ => .pure
  have hkeyword : Moves isJoinKeyword := currentToken_moves.bind fun _ => .pure
  exact hident.bind fun _ => hkeyword.bind fun _ => .ite (parseIdent_moves.bind fun _ => .pure) .pure

theorem parseJoinType_moves : Moves parseJoinType :=
  (matchToken_moves .cross).branch .pure <| (matchToken_moves .left).branch .pure <|
    (matchToken_moves .inner).branch .pure .pure

theorem parseJoins_moves (h : Moves expr) : ∀ n left, Moves (parseJoins expr n left)
  | 0, _ => .throw
  | n + 1, left => by
    have hat : Moves atJoin := currentToken_moves.bind fun _ => .pure
    exact hat.branch (parseJoinType_moves.bind fun _ => (expect_moves .join).bind fun _ =>
      parseIdent_moves.bind fun _ => parseAlias_moves.bind fun _ => (optional_moves .on h).bind fun _ =>
      parseJoins_moves h n _) .pure

theorem parseTableRef_moves (h : Moves expr) : Moves (parseTableRef expr n) :=
  parseIdent_moves.bind fun _ => parseAlias_moves.bind fun _ => parseJoins_moves h n _

theorem parseOrderTerm_moves (h : Moves expr) : Moves (parseOrderTerm expr) :=
  h.bind fun _ => (matchToken_moves .desc).bind fun _ => .ite .pure
    ((matchToken_moves .asc).bind fun _ => .pure)

theorem parseListBy_moves {item : ParserM α} (w : Word) (h : Moves item) : Moves (parseListBy w item n) :=
  (matchToken_moves w).branch ((expect_moves .by).bind fun _ => commaList_moves h n) .pure

theorem parseOffset_moves (h : Moves expr) : Moves (parseOffset expr) :=
  (matchToken_moves .comma).bind fun _ => (Moves.ite .pure (matchToken_moves .offset)).bind fun _ =>
    .ite ((matchToken_moves .offset).bind fun _ => h.bind fun _ => .pure) .pure

theorem parseSelect_moves (h : Moves expr) : Moves (parseSelect expr n) :=
  (matchToken_moves .distinct).bind fun _ => (parseResultColumns_moves h).bind fun _ =>
    (optional_moves .from (parseTableRef_moves h)).bind fun _ => (optional_moves .where h).bind fun _ =>
    (parseListBy_moves .group h).bind fun _ => (optional_moves .having h).bind fun _ =>
    (parseListBy_moves .order (parseOrderTerm_moves h)).bind fun _ =>
    (optional_moves .limit h).bind fun _ => (parseOffset_moves h).bind fun _ => .pure

end

/-! ## Parts of statements -/

theorem parseOrConflict_moves : Moves parseOrConflict :=
  (matchToken_moves .or).branch ((matchToken_moves .rollback).branch .pure <|
    (matchToken_moves .abortKw).branch .pure <| (matchToken_moves .fail).branch .pure <|
    (matchToken_moves .ignore).branch .pure <| (matchToken_moves .replace).branch .pure .pure) .pure

theorem parseList_moves {item : ParserM α} {n : Nat} (h : Moves item) : Moves (parseList item n) :=
  (expect_moves .lParen).bind fun _ => (commaList_moves h n).bind fun _ =>
    (expect_moves .rParen).bind fun _ => .pure

theorem parseIfNotExists_moves : Moves parseIfNotExists :=
  (matchToken_moves .if).branch ((expect_moves .not).bind fun _ =>
    (expect_moves .exists).bind fun _ => .pure) .pure

theorem parseColumnType_moves : Moves parseColumnType := by
  refine (matchToken_moves .integer).branch .pure <| (matchToken_moves .real).branch .pure <|
    (matchToken_moves .text).branch .pure <| (matchToken_moves .blob).branch .pure <|
    (matchToken_moves .null).branch .pure <| currentToken_moves.bind fun t => ?_
  split
  · exact advance_moves.bind fun _ => .pure
  · exact .pure

theorem parsePrimaryKeys_moves : ∀ n, Moves (parsePrimaryKeys n)
  | 0 => .throw
  | n + 1 => (matchToken_moves .primary).branch ((expect_moves .key).bind fun _ =>
      (matchToken_moves .autoincrement).bind fun _ => (parsePrimaryKeys_moves n).bind fun _ => .pure) .pure

theorem parseDropTable_moves : Moves parseDropTable :=
  ((matchToken_moves .if).branch ((expect_moves .exists).bind fun _ => .pure) .pure).bind fun _ =>
    parseIdent_moves.bind fun _ => .pure

theorem parseCreateIndex_moves (n : Nat) (unique : Bool) :
    Moves (parseCreateIndex unique n) :=
  parseIfNotExists_moves.bind fun _ => parseIdent_moves.bind fun _ => (expect_moves .on).bind fun _ =>
    parseIdent_moves.bind fun _ => (parseList_moves parseIdent_moves).bind fun _ => .pure

theorem parseDrop_moves : Moves parseDrop :=
  (expect_moves .table).bind fun _ => parseDropTable_moves.bind fun _ => .pure

theorem skipSemicolons_moves : ∀ n, Moves (skipSemicolons n)
  | 0 => .throw
  | n + 1 => (check_moves .semi).branch (advance_moves.bind fun _ => skipSemicolons_moves n) .pure

/-! ## A run moves on -/

/-- `m` ends without a panic, within the tokens and not in front of `s`; where it returns,
behind `s`. -/
def Advances {α : Type} (m : ParserM α) (s : Parser) : Prop :=
  match m s with
  | .ok _ s' => s'.tokens = s.tokens ∧ s.pos < s'.pos ∧ s'.pos ≤ s.tokens.length
  | .error (.err _) s' => s'.tokens = s.tokens ∧ s.pos ≤ s'.pos ∧ s'.pos ≤ s.tokens.length
  | .error .panic _ => False

theorem kinds_length (s : Parser) : s.kinds.length = s.tokens.length - s.pos := by
  rw [kinds, List.length_map, List.length_drop]

/-- What is read as a sentence that is never empty has a token. -/
theorem reads_length {e : Syntax} (he : e.nullable = false) {w r : List Kind}
    (h : Reads grammar e w (.ok r)) : r.length < w.length := by
  obtain ⟨p, rfl, hd⟩ := h.sound rfl
  have hne : p ≠ [] := by
    rintro rfl
    rcases hd.first (fun a => grammar_lookaheadOne.first a) grammar_lookaheadOne.solid with ⟨-, hnull⟩ | ⟨_, _, hp⟩
    · rw [he] at hnull
      cases hnull
    · cases hp
  have hpos := List.length_pos_of_ne_nil hne
  rw [List.length_append]
  omega

theorem advances {k : Nat} {e : Syntax} {s : Parser} (hm : Moves m) (hg : Goes k m e) (he : e.nullable = false)
    (hs : s.pos ≤ s.tokens.length) (hk : s.tokens.length - s.pos < k) : Advances m s := by
  have hwithin := hm s.tokens s.pos s ⟨rfl, Nat.le_refl _, hs⟩
  have hlands := hg s (by rw [kinds_length]; exact hk) trivial
  unfold Advances
  cases hrun : m s with
  | ok a s' =>
    rw [hrun] at hwithin hlands
    obtain ⟨htokens, hle, hend⟩ := hwithin
    have hless := reads_length he hlands
    rw [kinds_length, kinds_length, htokens] at hless
    exact ⟨htokens, by omega, hend⟩
  | error err s' =>
    rw [hrun] at hwithin hlands
    cases err with
    | err _ => exact hwithin
    | panic => exact hlands

theorem skipSemicolons_ok : ∀ {n : Nat} {s : Parser}, s.kinds.length < n →
    ∃ s', skipSemicolons n s = .ok () s'
  | 0, _, hn => absurd hn (Nat.not_lt_zero _)
  | n + 1, s, hn => by
    have hbranch := check_branch (X := do let _ ← advance; skipSemicolons n) (Y := Pure.pure ()) .semi s
    by_cases hsemi : s.kinds.head? = some (.word .semi)
    · cases hs : s.tokens[s.pos]? with
      | none =>
        rw [kinds_none hs] at hsemi
        cases hsemi
      | some t =>
        rw [kinds_some hs, List.length_cons] at hn
        obtain ⟨s', hs'⟩ := skipSemicolons_ok (Nat.lt_of_succ_lt_succ hn)
        rw [if_pos hsemi, bind_ok (advance_apply hs)] at hbranch
        exact ⟨s', hbranch.trans hs'⟩
    · rw [if_neg hsemi] at hbranch
      exact ⟨s, hbranch⟩

/-! ## Whole parsers -/

section
variable [DebugText]

theorem parseExpr_moves : ∀ n, Moves (parseExpr n)
  | 0 => .throw
  | n + 1 => parseOrExpr_moves
      (parsePrimaryExpr_moves (parseExpr_moves n) (parseSelect_moves (parseExpr_moves n))) (n + 1)

section
variable (n : Nat)

theorem parseInsert_moves : Moves (parseInsert n) :=
  parseOrConflict_moves.bind fun _ => (expect_moves .into).bind fun _ => parseIdent_moves.bind fun _ =>
    ((matchToken_moves .lParen).branch ((commaList_moves parseIdent_moves n).bind fun _ =>
      (expect_moves .rParen).bind fun _ => .pure) .pure).bind fun _ =>
    (expect_moves .values).bind fun _ =>
    (commaList_moves (parseList_moves (parseExpr_moves n)) n).bind fun _ => .pure

theorem parseUpdate_moves : Moves (parseUpdate n) :=
  parseIdent_moves.bind fun _ => (expect_moves .set).bind fun _ =>
    (commaList_moves (parseIdent_moves.bind fun _ => (expect_moves .eq).bind fun _ =>
      (parseExpr_moves n).bind fun _ => .pure) n).bind fun _ =>
    (optional_moves .where (parseExpr_moves n)).bind fun _ => .pure

theorem parseDelete_moves : Moves (parseDelete n) :=
  (expect_moves .from).bind fun _ => parseIdent_moves.bind fun _ =>
    (optional_moves .where (parseExpr_moves n)).bind fun _ => .pure

theorem parseColumnDef_moves : Moves (parseColumnDef n) :=
  parseIdent_moves.bind fun _ => parseColumnType_moves.bind fun _ => (parsePrimaryKeys_moves n).bind fun _ =>
    ((matchToken_moves .not).branch ((expect_moves .null).bind fun _ => .pure) .pure).bind fun _ =>
    (matchToken_moves .unique).bind fun _ =>
    (optional_moves .default (parseExpr_moves n)).bind fun _ => .pure

theorem parseCreateTable_moves : Moves (parseCreateTable n) :=
  parseIfNotExists_moves.bind fun _ => parseIdent_moves.bind fun _ =>
    (parseList_moves (parseColumnDef_moves n)).bind fun _ => .pure

theorem parsePragma_moves : Moves (parsePragma n) :=
  parseIdent_moves.bind fun _ => (matchToken_moves .eq).branch
    ((parseExpr_moves n).bind fun _ => .pure) <| (matchToken_moves .lParen).branch
    ((parseExpr_moves n).bind fun _ => (expect_moves .rParen).bind fun _ => .pure) .pure

theorem parseCreate_moves : Moves (parseCreate n) :=
  (matchToken_moves .unique).bind fun unique => (matchToken_moves .index).branch
    ((parseCreateIndex_moves n unique).bind fun _ => .pure)
    ((expect_moves .table).bind fun _ => (parseCreateTable_moves n).bind fun _ => .pure)

theorem parseStatement_moves : Moves (parseStatement n) :=
  (matchToken_moves .select).branch ((parseSelect_moves (parseExpr_moves n)).bind fun _ => .pure) <|
    (matchToken_moves .insert).branch ((parseInsert_moves n).bind fun _ => .pure) <|
    (matchToken_moves .update).branch ((parseUpdate_moves n).bind fun _ => .pure) <|
    (matchToken_moves .delete).branch ((parseDelete_moves n).bind fun _ => .pure) <|
    (matchToken_moves .create).branch (parseCreate_moves n) <|
    (matchToken_moves .drop).branch parseDrop_moves <|
    (matchToken_moves .pragma).branch ((parsePragma_moves n).bind fun _ => .pure) <|
    (matchToken_moves .begin).branch .pure <| (matchToken_moves .commit).branch .pure <|
    (matchToken_moves .rollback).branch .pure (error_moves _)

end

/-! ## The loop over statements -/

theorem parseStatement_advances {n : Nat} {s : Parser} (hs : s.pos ≤ s.tokens.length)
    (hn : s.tokens.length - s.pos < n) : Advances (parseStatement n) s :=
  advances (parseStatement_moves n) (parseStatement_goes n) (by decide +kernel) hs hn

/-- Each round takes a token: as many rounds as there are tokens are enough. -/
theorem parseStatements_ends {n : Nat} : ∀ {k : Nat} {s : Parser}, s.pos ≤ s.tokens.length →
    s.tokens.length - s.pos < n → s.tokens.length - s.pos < k →
    ∀ s', parseStatements n k s ≠ .error .panic s'
  | 0, _, _, _, hk => absurd hk (Nat.not_lt_zero _)
  | k + 1, s, hs, hn, hk => by
    intro s'
    rw [parseStatements, bind_ok (get_apply s)]
    by_cases hend : s.isAtEnd = true
    · rw [if_pos hend]
      exact nofun
    rw [if_neg hend, bind_apply]
    have hadv := parseStatement_advances hs hn
    unfold Advances at hadv
    cases hstmt : parseStatement n s with
    | error e s₁ =>
      rw [hstmt] at hadv
      cases e with
      | err e => exact nofun
      | panic => exact hadv.elim
    | ok stmt s₁ =>
      rw [hstmt] at hadv
      obtain ⟨htokens, hpos, hle⟩ := hadv
      obtain ⟨s₂, hskip⟩ := skipSemicolons_ok (n := n) (s := s₁) (by rw [kinds_length, htokens]; omega)
      have hwithin := skipSemicolons_moves n s₁.tokens s₁.pos s₁ ⟨rfl, Nat.le_refl _, htokens ▸ hle⟩
      rw [hskip] at hwithin
      obtain ⟨htokens₂, hpos₂, hle₂⟩ := hwithin
      rw [← htokens₂] at hle₂
      have hrest := parseStatements_ends (n := n) (k := k) hle₂
        (by rw [htokens₂, htokens]; omega) (by rw [htokens₂, htokens]; omega)
      dsimp only
      rw [bind_ok hskip, bind_apply]
      cases hmore : parseStatements n k s₂ with
      | ok stmts s₃ => exact nofun
      | error e s₃ =>
        intro hpanic
        cases hpanic
        exact hrest _ hmore

/-- The operand parser, and the parser of every level of precedence, with `n` more rounds
inside of parentheses. -/
def exprParsers (n : Nat) : List (ParserM Expr) :=
  let primary := parsePrimaryExpr (parseExpr n) (parseSelect (parseExpr n) n) n
  [parseExpr (n + 1), parseOrExpr primary (n + 1), parseAndExpr primary (n + 1),
    parseNotExpr (parseComparisonExpr primary (n + 1)) (n + 1), parseComparisonExpr primary (n + 1),
    parseAdditiveExpr primary (n + 1), parseMultiplicativeExpr primary (n + 1),
    parseUnaryExpr primary (n + 1), primary]

theorem exprParsers_advance {n : Nat} {s : Parser} (hs : s.pos ≤ s.tokens.length)
    (hn : s.tokens.length - s.pos ≤ n) : ∀ m ∈ exprParsers n, Advances m s := by
  have hn := Nat.lt_succ_of_le hn
  have hexpr := parseExpr_moves n
  have hmoves : Moves (parsePrimaryExpr (parseExpr n) (parseSelect (parseExpr n) n) n) :=
    parsePrimaryExpr_moves hexpr (parseSelect_moves hexpr)
  have hprimary : Goes (n + 1) (parsePrimaryExpr (parseExpr n) (parseSelect (parseExpr n) n) n)
      Syntax.primaryExpr :=
    parsePrimaryExpr_goes (Nat.le_refl _) (parseExpr_goes n) (parseSelect_goes (Nat.le_refl n) (parseExpr_goes n))
  have hunary := parseUnaryExpr_goes (Nat.le_refl _) hprimary
  have hmul := operatorChain_goes multiplicativeOp_picks rfl rfl (Nat.le_refl _) hunary
  have hadd := operatorChain_goes additiveOp_picks rfl rfl (Nat.le_refl _) hmul
  have hcmp := operatorChain_goes comparisonOp_picks rfl rfl (Nat.le_refl _) hadd
  have hnot := parseNotExpr_goes (Nat.le_refl _) hcmp
  have hand := operatorChain_goes andOp_picks rfl rfl (Nat.le_refl _) hnot
  have hor := operatorChain_goes orOp_picks rfl rfl (Nat.le_refl _) hand
  simp only [exprParsers, List.forall_mem_cons, List.not_mem_nil, false_implies, implies_true, and_true]
  exact ⟨advances (parseExpr_moves _) (parseExpr_goes _) rfl hs hn,
    advances (parseOrExpr_moves hmoves _) hor rfl hs hn,
    advances (parseAndExpr_moves hmoves _) hand rfl hs hn,
    advances (parseNotExpr_moves (parseComparisonExpr_moves hmoves _) _) hnot rfl hs hn,
    advances (parseComparisonExpr_moves hmoves _) hcmp rfl hs hn,
    advances (parseAdditiveExpr_moves hmoves _) hadd rfl hs hn,
    advances (parseMultiplicativeExpr_moves hmoves _) hmul rfl hs hn,
    advances (parseUnaryExpr_moves hmoves _) hunary rfl hs hn,
    advances hmoves hprimary rfl hs hn⟩

end

end Parser

end Sqllite
