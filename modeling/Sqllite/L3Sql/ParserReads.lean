import Sqllite.L3Sql.Grammar
import Sqllite.L3Sql.Parser

/-!
# The parser goes as the grammar does

Each function of the parser, on fewer tokens than the bound it has, goes as a descent
over its part of the grammar and does not panic.

* `parseStatement_goes`: so does `parse_statement`.
-/
namespace Sqllite
open Lib Lib.Run Lib.Predictive Syntax

namespace Parser

/-- The kinds of the tokens that are left. -/
def kinds (s : Parser) : List Kind := (s.tokens.drop s.pos).map (·.token.kind)

/-- On fewer than `k` tokens the program goes as `e` says. -/
abbrev Goes {α : Type} (k : Nat) (m : ParserM α) (e : Syntax) : Prop := Follows grammar kinds k m e

/-- The parser behind the next token. -/
def behind (s : Parser) : Parser := { s with pos := s.pos + 1 }

variable {s : Parser} {t : SpannedToken} {k : Nat} {α : Type} {x y : Syntax}

theorem currentToken_apply (s : Parser) :
    currentToken s = .ok (s.tokens[s.pos]?.map (·.token)) s := rfl

theorem kinds_some (h : s.tokens[s.pos]? = some t) : s.kinds = t.token.kind :: s.behind.kinds := by
  obtain ⟨hlt, ht⟩ := List.getElem?_eq_some_iff.mp h
  rw [kinds, List.drop_eq_getElem_cons hlt, ht]
  rfl

theorem kinds_none (h : s.tokens[s.pos]? = none) : s.kinds = [] := by
  rw [kinds, List.drop_eq_nil_of_le (List.getElem?_eq_none_iff.mp h)]
  rfl

theorem advance_apply (h : s.tokens[s.pos]? = some t) : advance s = .ok (some t) s.behind := by
  obtain ⟨hlt, -⟩ := List.getElem?_eq_some_iff.mp h
  have hend : s.isAtEnd = false := decide_eq_false (Nat.not_le.mpr hlt)
  have hmove : (modify fun s : Parser => if s.isAtEnd then s else { s with pos := s.pos + 1 } :
      ParserM PUnit) s = .ok ⟨⟩ s.behind := by
    rw [modify_apply, hend, if_neg Bool.false_ne_true]
    rfl
  rw [advance, bind_ok hmove, bind_ok (get_apply s.behind), if_neg (show s.behind.pos ≠ 0 from Nat.succ_ne_zero s.pos)]
  exact congrArg (EStateM.Result.ok · s.behind) h

theorem check_apply (w : Word) (s : Parser) :
    check w s = .ok (decide (s.kinds.head? = some (.word w))) s := by
  rw [check, bind_ok (currentToken_apply s)]
  cases h : s.tokens[s.pos]? with
  | none =>
    rw [kinds_none h]
    rfl
  | some t =>
    rw [kinds_some h]
    simp

theorem matchToken_tests (w : Word) : Tests kinds (matchToken w) (.word w) := by
  intro s
  rw [matchToken, bind_ok (check_apply w s)]
  by_cases hw : s.kinds.head? = some (.word w)
  · rw [decide_eq_true hw, if_pos rfl]
    cases h : s.tokens[s.pos]? with
    | none =>
      rw [kinds_none h] at hw
      cases hw
    | some t =>
      rw [kinds_some h] at hw ⊢
      refine .inl ⟨s.behind, bind_ok (advance_apply h) _, ?_⟩
      rw [Option.some.inj hw]
  · rw [decide_eq_false hw, if_neg Bool.false_ne_true]
    exact .inr ⟨rfl, hw⟩

theorem error_apply (message : String) (s : Parser) :
    ∃ e, (error message : ParserM α) s = .error (.err e) s :=
  ⟨_, bind_ok (currentToken_apply s) _⟩

theorem expect_goes (w : Word) : Goes k (expect w) (word w) := by
  intro s _ _
  rw [expect]
  rcases matchToken_tests w s with ⟨s', hm, hview⟩ | ⟨hm, hview⟩
  · rw [bind_ok hm, hview]
    exact .token
  · rw [bind_ok hm]
    exact .stuck hview

theorem optional_goes {m : ParserM α} (w : Word) (h : Goes k m x) :
    Goes k (optional w m) (maybe w x) :=
  .branch (matchToken_tests w) (fun _ hj => (h.less (Nat.le_of_lt hj)).map some) .pure

/-! ## Names -/

theorem reads_named {a : Kind} (ha : a.isIdent = true) {w : List Kind}
    {o : Except (List Kind) (List Kind)} (h : Reads grammar x w o) :
    Reads grammar (named x) (a :: w) o := by
  cases a <;> try cases ha
  case ident => exact .left (starts_token.mpr rfl) (.seq .token h)
  case quotedIdent =>
    exact .right (fun hs => nomatch starts_token.mp hs) (.left (starts_token.mpr rfl) (.seq .token h))
  case backtickIdent =>
    exact .right (fun hs => nomatch starts_token.mp hs) (.right (fun hs => nomatch starts_token.mp hs) (.seq .token h))

theorem named_stuck {w : List Kind} (h : ∀ a ∈ w.head?, a.isIdent = false) :
    Reads grammar (named x) w (.error w) := by
  have hne : ∀ {a : Kind}, a.isIdent = true → w.head? ≠ some a := fun ha hw => by
    have hfalse := h _ hw
    rw [ha] at hfalse
    cases hfalse
  exact .right (fun hs => hne rfl (starts_token.mp hs)) (.right (fun hs => hne rfl (starts_token.mp hs))
    (.seqStuck (.stuck (hne rfl))))

/-- A program that is stuck in front of the next token. -/
theorem lands_error {e : Syntax} (message : String)
    (h : Reads grammar e s.kinds (.error s.kinds)) :
    Lands grammar kinds e s.kinds ((error message : ParserM α) s) := by
  obtain ⟨_, he⟩ := error_apply (α := α) message s
  rw [he]
  exact h

/-- The next token is taken. -/
theorem lands_advance {m : ParserM α} {e : Syntax} (h : s.tokens[s.pos]? = some t)
    (hm : Lands grammar kinds e s.kinds (m s.behind)) :
    Lands grammar kinds e s.kinds ((do let _ ← advance; m : ParserM α) s) := by
  rw [bind_ok (advance_apply h)]
  exact hm

theorem parseIdent_goes : Goes k parseIdent ident := by
  intro s _ _
  rw [parseIdent, bind_ok (currentToken_apply s)]
  cases h : s.tokens[s.pos]? with
  | none =>
    refine lands_error _ ?_
    rw [kinds_none h]
    exact named_stuck nofun
  | some t =>
    have hstuck : t.token.kind.isIdent = false → Reads grammar ident s.kinds (.error s.kinds) :=
      fun hk => by
        rw [kinds_some h]
        exact named_stuck fun _ ha => Option.some.inj ha ▸ hk
    have hname : t.token.kind.isIdent = true → Reads grammar ident s.kinds (.ok s.behind.kinds) :=
      fun hk => by
        rw [kinds_some h]
        exact reads_named hk .empty
    obtain ⟨token, start, stop⟩ := t
    cases token with
    | ident | quotedIdent | backtickIdent => exact lands_advance h (hname rfl)
    | _ => exact lands_error _ (hstuck rfl)

/-! ## Lists and operators -/

theorem Lands.imp {e e' : Syntax} {w w' : List Kind} {r : EStateM.Result (Fault ParseError) Parser α}
    (h : Lands grammar kinds e w r) (himp : ∀ o, Reads grammar e w o → Reads grammar e' w' o) :
    Lands grammar kinds e' w' r := by
  rcases r with ⟨a, s'⟩ | ⟨_ | _, s'⟩
  · exact himp _ h
  · exact himp _ h
  · exact h

theorem commaList_goes {item : ParserM α} : ∀ {n k : Nat}, k ≤ n → Goes k item x →
    Goes k (commaList item n) (list x)
  | 0, _, hk, _ => fun _ hlen _ => absurd (Nat.lt_of_lt_of_le hlen hk) (Nat.not_lt_zero _)
  | n + 1, k, hk, h => by
    refine FollowsIf.then h fun a => ?_
    intro s hlen _
    rcases matchToken_tests .comma s with ⟨s', hm, hview⟩ | ⟨hm, hview⟩
    · rw [bind_ok hm, hview]
      have hless : s'.kinds.length < k - 1 := by
        rw [hview, List.length_cons] at hlen
        omega
      have hrest := (commaList_goes (Nat.sub_le_of_le_add hk) (h.less (Nat.sub_le k 1))).map (a :: ·) s' hless trivial
      refine Lands.imp hrest fun o ho => ?_
      have hstart : grammar.Starts (.seq (word .comma) x) (.word .comma :: s'.kinds) :=
        starts_token.mpr rfl
      cases ho with
      | seq h1 h2 => exact .more hstart (.seq .token h1) h2
      | seqStuck h1 => exact .moreStuck hstart (.seq .token h1)
    · rw [bind_ok hm]
      exact .stop fun hs => hview (starts_token.mp hs)

/-- Behind a list stands no comma. -/
theorem commaList_ends {item : ParserM α} : ∀ {n : Nat} {s : Parser} {xs s'},
    commaList item n s = .ok xs s' → s'.kinds.head? ≠ some (.word .comma)
  | 0, _, _, _, h => by cases h
  | n + 1, s, xs, s', h => by
    obtain ⟨a, s₁, -, h⟩ := bind_eq_ok.mp h
    rcases matchToken_tests .comma s₁ with ⟨s₂, hm, -⟩ | ⟨hm, hview⟩
    · rw [bind_ok hm, if_pos rfl] at h
      obtain ⟨ys, s₃, h, hpure⟩ := bind_eq_ok.mp h
      cases hpure
      exact commaList_ends h
    · rw [bind_ok hm] at h
      cases h
      exact hview

section
variable {ops : ParserM (Option BinaryOp)} {operand : ParserM Expr}

theorem operatorLoop_goes (hops : Picks grammar kinds ops y) (hled : y.led = true)
    (hsolid : y.nullable = false) : ∀ {n k : Nat} (left : Expr), k ≤ n → Goes k operand x → Goes k (operatorLoop ops operand n left) (.star (.seq y x))
  | 0, _, _, hk, _ => fun _ hlen _ => absurd (Nat.lt_of_lt_of_le hlen hk) (Nat.not_lt_zero _)
  | n + 1, k, left, hk, h => by
    intro s hlen _
    rw [operatorLoop]
    rcases hops s with ⟨hstart, b, s', hm, hr⟩ | ⟨hno, hm⟩
    · rw [bind_ok hm]
      have hless : s'.kinds.length < k - 1 := by
        obtain ⟨a, -, hw⟩ := id hstart
        obtain ⟨w, hw⟩ := List.head?_eq_some_iff.mp hw
        rw [hw] at hstart hr hlen
        have hle := (hr.takes hled hstart).length_le
        rw [List.length_cons] at hlen
        exact Nat.lt_of_le_of_lt hle (by omega)
      have hoperand := h.less (P := fun _ => True) (Nat.sub_le k 1)
      have hrest := (hoperand.then fun right => operatorLoop_goes
        hops hled hsolid (.binaryOp b left right) (Nat.sub_le_of_le_add hk) hoperand) s' hless trivial
      refine Lands.imp hrest fun o ho => ?_
      cases ho with
      | seq h1 h2 => exact .more ((starts_seq hsolid).mpr hstart) (.seq hr h1) h2
      | seqStuck h1 => exact .moreStuck ((starts_seq hsolid).mpr hstart) (.seq hr h1)
    · rw [bind_ok hm]
      exact .stop fun hs => hno ((starts_seq hsolid).mp hs)

theorem operatorChain_goes (hops : Picks grammar kinds ops y) (hled : y.led = true)
    (hsolid : y.nullable = false) {n : Nat} (hk : k ≤ n) (h : Goes k operand x) : Goes k (operatorChain ops operand n) (chain y x) :=
  FollowsIf.then h fun _ => operatorLoop_goes hops hled hsolid _ hk h

end

/-! ## Expressions -/

variable {n : Nat}

/-- A bound that recursion goes down on. -/
theorem goes_zero {m : ParserM α} : Goes 0 m x := fun _ hlen _ => absurd hlen (Nat.not_lt_zero _)

section
variable {expr : ParserM Expr} {select : ParserM Select}

theorem check_branch {X Y : ParserM α} (w : Word) (s : Parser) :
    (do if ← check w then X else Y : ParserM α) s =
      if s.kinds.head? = some (.word w) then X s else Y s := by
  rw [bind_ok (check_apply w s)]
  by_cases hw : s.kinds.head? = some (.word w)
  · rw [if_pos hw, decide_eq_true hw, if_pos rfl]
  · rw [if_neg hw, decide_eq_false hw, if_neg Bool.false_ne_true]

theorem parseIdentExpr_goes (hk : k ≤ n) (h : Goes k expr Syntax.expr) (name : String) :
    Goes k (parseIdentExpr expr n name) identExpr := by
  refine .branch (matchToken_tests .lParen) (fun j hj => ?_) (.branch (matchToken_tests .dot)
    (fun j hj => parseIdent_goes.map _) .pure)
  intro s hlen _
  have hargs := check_branch (X := pure []) (Y := commaList expr n) .rParen s
  by_cases hw : s.kinds.head? = some (.word .rParen)
  · rw [if_pos hw] at hargs
    rw [bind_ok hargs]
    refine Lands.imp (((expect_goes .rParen).map _) s hlen trivial) fun o ho => ?_
    refine .left (starts_token.mpr hw) ?_
    obtain ⟨w, hkinds⟩ := List.head?_eq_some_iff.mp hw
    rw [hkinds] at ho ⊢
    cases ho with
    | token => exact .seq .token .empty
    | stuck hne => exact absurd rfl hne
  · rw [if_neg hw] at hargs
    rw [bind_apply, hargs, ← bind_apply]
    have hrest := ((commaList_goes (Nat.le_trans hj.le hk) (h.less hj.le)).then fun args =>
      (expect_goes .rParen).map fun _ => Expr.function name false args) s hlen trivial
    exact Lands.imp hrest fun o ho => .right (fun hs => hw (starts_token.mp hs)) ho

theorem parseCount_goes (hk : k ≤ n) (h : Goes k expr Syntax.expr) :
    Goes k (parseCount expr n) count :=
  (expect_goes .lParen).then fun _ => (matchToken_tests .distinct).follows.then fun _ =>
    .then (.branch (matchToken_tests .star) (fun _ _ => .pure) (commaList_goes hk h)) fun _ =>
    (expect_goes .rParen).then fun _ => .pure

theorem parseParen_goes [DebugText] (h : Goes k expr Syntax.expr)
    (hs : Goes k select (.rule .select)) : Goes k (parseParen expr select) paren :=
  .branch (matchToken_tests .select)
    (fun _ hj => (hs.less hj.le).then fun _ => (expect_goes .rParen).then fun _ => .pure)
    (h.then fun _ => (expect_goes .rParen).then fun _ => .pure)

/-- Choices by the next token. -/
def choices (bs : List (Kind × Syntax)) (y : Syntax) : Syntax :=
  bs.foldr (fun b y => .alt (.seq (.token b.1) b.2) y) y

theorem reads_choices {a : Kind} {w : List Kind} {o : Except (List Kind) (List Kind)}
    (hr : Reads grammar x w o) : ∀ {bs : List (Kind × Syntax)}, bs.lookup a = some x →
    Reads grammar (choices bs y) (a :: w) o
  | [], h => by cases h
  | (b, z) :: bs, h => by
    by_cases hab : a = b
    · rw [hab, List.lookup_cons_self] at h
      cases h
      rw [hab]
      exact .left (starts_token.mpr rfl) (.seq .token hr)
    · rw [List.lookup_cons, beq_eq_false_iff_ne.mpr hab] at h
      exact .right (fun hs => hab (Option.some.inj (starts_token.mp hs))) (reads_choices hr h)

theorem reads_choices_none {w : List Kind} {o : Except (List Kind) (List Kind)}
    (hr : Reads grammar y w o) : ∀ {bs : List (Kind × Syntax)}, (∀ a ∈ w.head?, bs.lookup a = none) →
    Reads grammar (choices bs y) w o
  | [], _ => hr
  | (b, z) :: bs, h => by
    have hne : w.head? ≠ some b := fun hw => by
      have hnone := h b hw
      rw [List.lookup_cons_self] at hnone
      cases hnone
    refine .right (fun hs => hne (starts_token.mp hs)) (reads_choices_none hr fun a ha => ?_)
    have hnone := h a ha
    have hab : a ≠ b := fun hab => hne (hab ▸ ha)
    rwa [List.lookup_cons, beq_eq_false_iff_ne.mpr hab] at hnone

/-- The operands that begin with one token, but for the names. -/
def operands : List (Kind × Syntax) :=
  [(.integerLit, .empty), (.realLit, .empty), (.stringLit, .empty), (.blobLit, .empty),
    (.word .star, .empty), (.word .lParen, paren), (.word .count, count)]

theorem parsePrimaryExpr_goes [DebugText] (hk : k ≤ n + 1) (h : Goes n expr Syntax.expr)
    (hs : Goes n select (.rule .select)) : Goes k (parsePrimaryExpr expr select n) primaryExpr := by
  refine .branch (matchToken_tests .null) (fun _ _ => .pure) ?_
  intro s hlen _
  show Lands grammar kinds (choices operands (named identExpr)) s.kinds _
  rw [bind_ok (currentToken_apply s)]
  have hstuck : (∀ a ∈ s.kinds.head?, operands.lookup a = none ∧ a.isIdent = false) →
      Reads grammar (choices operands (named identExpr)) s.kinds (.error s.kinds) := fun hnone =>
    reads_choices_none (named_stuck fun a ha => (hnone a ha).2) fun a ha => (hnone a ha).1
  cases hcur : s.tokens[s.pos]? with
  | none =>
    refine lands_error _ (hstuck ?_)
    rw [kinds_none hcur]
    exact nofun
  | some t =>
    have hkinds := kinds_some hcur
    have hless : s.behind.kinds.length < n := by
      rw [hkinds, List.length_cons] at hlen
      omega
    have hother : operands.lookup t.token.kind = none → t.token.kind.isIdent = false →
        Lands grammar kinds (choices operands (named identExpr)) s.kinds
          ((error "expected expression" : ParserM Expr) s) := fun h1 h2 => by
      refine lands_error _ (hstuck ?_)
      rw [hkinds]
      rintro _ ⟨⟩
      exact ⟨h1, h2⟩
    have hhit : ∀ {x : Syntax} {m : ParserM Expr}, operands.lookup t.token.kind = some x →
        Lands grammar kinds x s.behind.kinds (m s.behind) →
        Lands grammar kinds (choices operands (named identExpr)) s.kinds
          ((do let _ ← advance; m : ParserM Expr) s) := fun hlook hm => by
      refine lands_advance hcur ?_
      rw [hkinds]
      exact Lands.imp hm fun o ho => reads_choices ho hlook
    have hname : ∀ name, operands.lookup t.token.kind = none → t.token.kind.isIdent = true →
        Lands grammar kinds (choices operands (named identExpr)) s.kinds
          ((do let _ ← advance; parseIdentExpr expr n name : ParserM Expr) s) := fun name hlook hid => by
      refine lands_advance hcur ?_
      rw [hkinds]
      refine Lands.imp (parseIdentExpr_goes (Nat.le_refl n) h name s.behind hless trivial) fun o ho => ?_
      exact reads_choices_none (reads_named hid ho) fun a ha => Option.some.inj ha ▸ hlook
    obtain ⟨token, start, stop⟩ := t
    cases token with
    | integerLit | realLit | stringLit | blobLit => exact hhit rfl .empty
    | ident name | quotedIdent name | backtickIdent name => exact hname name rfl rfl
    | word w =>
      cases w with
      | star => exact hhit rfl .empty
      | lParen => exact hhit rfl (parseParen_goes h hs s.behind hless trivial)
      | count => exact hhit rfl (parseCount_goes (Nat.le_refl n) h s.behind hless trivial)
      | _ => exact hother rfl rfl
    | _ => exact hother rfl rfl

theorem parseUnaryExpr_goes {primary : ParserM Expr} : ∀ {n k : Nat}, k ≤ n →
    Goes k primary primaryExpr → Goes k (parseUnaryExpr primary n) (.rule .unaryExpr)
  | 0, _, hk, _ => fun _ hlen _ => absurd (Nat.lt_of_lt_of_le hlen hk) (Nat.not_lt_zero _)
  | n + 1, k, hk, h => by
    have hbody : Goes k (parseUnaryExpr primary (n + 1)) unaryExpr :=
      .branch (matchToken_tests .minus)
        (fun j hj => (parseUnaryExpr_goes (by omega) (h.less hj.le)).map _)
        (.branch (matchToken_tests .plus) (fun j hj => parseUnaryExpr_goes (by omega) (h.less hj.le)) h)
    exact fun s hlen hs => Lands.imp (hbody s hlen hs) fun _ ho => .rule ho

theorem multiplicativeOp_picks : Picks grammar kinds multiplicativeOp
    (op .star <| op .slash <| parts [word .percent]) :=
  .branch (matchToken_tests _) .pure <| .branch (matchToken_tests _) .pure <|
    .single (matchToken_tests _) .pure

theorem additiveOp_picks : Picks grammar kinds additiveOp
    (op .plus <| op .minus <| parts [word .concat]) :=
  .branch (matchToken_tests _) .pure <| .branch (matchToken_tests _) .pure <|
    .single (matchToken_tests _) .pure

theorem comparisonOp_picks : Picks grammar kinds comparisonOp
    (op .eq <| op .eqEq <| op .notEq <| op .lt <| op .le <| op .gt <| op .ge <| op .like <|
      .seq (word .is) (maybe .not .empty)) :=
  .branch (matchToken_tests _) .pure <| .branch (matchToken_tests _) .pure <|
    .branch (matchToken_tests _) .pure <| .branch (matchToken_tests _) .pure <|
    .branch (matchToken_tests _) .pure <| .branch (matchToken_tests _) .pure <|
    .branch (matchToken_tests _) .pure <| .branch (matchToken_tests _) .pure <|
    .single (matchToken_tests _) (.branch (matchToken_tests _) .pure .pure)

theorem andOp_picks : Picks grammar kinds andOp (parts [word .and]) :=
  .single (matchToken_tests _) .pure

theorem orOp_picks : Picks grammar kinds orOp (parts [word .or]) :=
  .single (matchToken_tests _) .pure

theorem parseNotExpr_goes {comparison : ParserM Expr} : ∀ {n k : Nat}, k ≤ n →
    Goes k comparison comparisonExpr → Goes k (parseNotExpr comparison n) (.rule .notExpr)
  | 0, _, hk, _ => fun _ hlen _ => absurd (Nat.lt_of_lt_of_le hlen hk) (Nat.not_lt_zero _)
  | n + 1, k, hk, h => by
    have hbody : Goes k (parseNotExpr comparison (n + 1)) notExpr :=
      .branch (matchToken_tests .not)
        (fun j hj => (parseNotExpr_goes (by omega) (h.less hj.le)).map _) h
    exact fun s hlen hs => Lands.imp (hbody s hlen hs) fun _ ho => .rule ho

theorem parseOrExpr_goes {primary : ParserM Expr} (hk : k ≤ n) (h : Goes k primary primaryExpr) :
    Goes k (parseOrExpr primary n) orExpr :=
  operatorChain_goes orOp_picks rfl rfl hk <| operatorChain_goes andOp_picks rfl rfl hk <|
    parseNotExpr_goes hk <| operatorChain_goes comparisonOp_picks rfl rfl hk <|
    operatorChain_goes additiveOp_picks rfl rfl hk <|
    operatorChain_goes multiplicativeOp_picks rfl rfl hk <| parseUnaryExpr_goes hk h

/-! ## Queries -/

theorem parseResultColumn_goes (h : Goes k expr Syntax.expr) :
    Goes k (parseResultColumn expr) resultColumn :=
  h.then fun _ => (optional_goes .as parseIdent_goes).map _

theorem mem_firsts_ident {a : Kind} : a ∈ grammar.firsts ident ↔ a.isIdent = true := by
  have hfirsts : grammar.firsts ident = [.ident, .quotedIdent, .backtickIdent] := by decide
  rw [hfirsts]
  cases a <;> simp [Kind.isIdent]

theorem parseAlias_goes : Goes k parseAlias (.opt ident) := by
  intro s hlen _
  have hident : checkIdent s = .ok (s.kinds.head?.any Kind.isIdent) s := by
    rw [checkIdent, bind_ok (currentToken_apply s)]
    cases h : s.tokens[s.pos]? with
    | none => rw [kinds_none h]; rfl
    | some t => rw [kinds_some h]; rfl
  have hkeyword : ∃ b, isJoinKeyword s = .ok b s ∧ (s.kinds.head?.any Kind.isIdent = true → b = false) := by
    refine ⟨_, bind_ok (currentToken_apply s) _, fun hid => ?_⟩
    cases h : s.tokens[s.pos]? with
    | none => rfl
    | some t =>
      rw [kinds_some h] at hid
      obtain ⟨token, start, stop⟩ := t
      cases token with
      | ident | quotedIdent | backtickIdent => rfl
      | _ => cases hid
  obtain ⟨b, hkeyword, hb⟩ := hkeyword
  rw [parseAlias, bind_ok hident, bind_ok hkeyword]
  cases hw : s.kinds.head? with
  | none =>
    rw [hw] at hb
    refine .right ?_ .empty
    rintro ⟨a, -, ha⟩
    rw [hw] at ha
    cases ha
  | some a =>
    rw [hw] at hb
    by_cases hid : a.isIdent = true
    · have hstart : grammar.Starts ident s.kinds := ⟨a, mem_firsts_ident.mpr hid, hw⟩
      rw [hb hid]
      simp only [Option.any_some, hid, Bool.not_false, Bool.and_self, if_true]
      exact Lands.imp (parseIdent_goes.map some s hlen trivial) fun _ ho => .left hstart ho
    · simp only [Option.any_some, eq_false_of_ne_true hid, Bool.false_and, Bool.false_eq_true, if_false]
      refine .right ?_ .empty
      rintro ⟨c, hc, hhead⟩
      rw [hw] at hhead
      cases hhead
      exact hid (mem_firsts_ident.mp hc)

theorem parseJoinType_reads (s : Parser) : ∃ joinType s', parseJoinType s = .ok joinType s' ∧
    s'.kinds.length ≤ s.kinds.length ∧
    ∀ o, Reads grammar (word .join) s'.kinds o → Reads grammar join s.kinds o := by
  rw [parseJoinType]
  rcases matchToken_tests .cross s with ⟨s', hm, hview⟩ | ⟨hm, hcross⟩
  · rw [bind_ok hm, hview]
    exact ⟨_, s', rfl, Nat.le_succ _, fun _ ho => .left (starts_token.mpr rfl) (.seq .token ho)⟩
  rw [bind_ok hm, if_neg Bool.false_ne_true]
  rcases matchToken_tests .left s with ⟨s', hm, hview⟩ | ⟨hm, hleft⟩
  · rw [bind_ok hm]
    refine ⟨_, s', rfl, by rw [hview]; exact Nat.le_succ _, fun _ ho => ?_⟩
    refine .right (fun hs => hcross (starts_token.mp hs)) (.left (starts_token.mpr ?_) ?_)
    · rw [hview]
      rfl
    · rw [hview]
      exact .seq .token ho
  rw [bind_ok hm, if_neg Bool.false_ne_true]
  rcases matchToken_tests .inner s with ⟨s', hm, hview⟩ | ⟨hm, hinner⟩
  · rw [bind_ok hm]
    refine ⟨_, s', rfl, by rw [hview]; exact Nat.le_succ _, fun _ ho => ?_⟩
    refine .right (fun hs => hcross (starts_token.mp hs)) (.right (fun hs => hleft (starts_token.mp hs))
      (.left (starts_token.mpr ?_) ?_))
    · rw [hview]
      rfl
    · rw [hview]
      exact .seq .token ho
  rw [bind_ok hm]
  exact ⟨_, s, rfl, Nat.le_refl _, fun _ ho => .right (fun hs => hcross (starts_token.mp hs))
    (.right (fun hs => hleft (starts_token.mp hs)) (.right (fun hs => hinner (starts_token.mp hs)) ho))⟩

theorem atJoin_apply (s : Parser) : ∃ b, atJoin s = .ok b s ∧
    (b = true ↔ grammar.Starts (parts [join, ident, .opt ident, maybe .on Syntax.expr]) s.kinds) := by
  refine ⟨_, bind_ok (currentToken_apply s) _, ?_⟩
  have hfirsts : grammar.firsts (parts [join, ident, .opt ident, maybe .on Syntax.expr]) =
      [.word .cross, .word .left, .word .inner, .word .join] := by decide
  rw [Grammar.Starts, hfirsts]
  cases h : s.tokens[s.pos]? with
  | none => simp [kinds_none h]
  | some t =>
    rw [kinds_some h]
    simp
    tauto

theorem parseJoins_goes : ∀ {n k : Nat} (left : TableRef Select), k ≤ n → Goes k expr Syntax.expr →
    Goes k (parseJoins expr n left) (.star (parts [join, ident, .opt ident, maybe .on Syntax.expr]))
  | 0, _, _, hk, _ => fun _ hlen _ => absurd (Nat.lt_of_lt_of_le hlen hk) (Nat.not_lt_zero _)
  | n + 1, k, left, hk, h => by
    intro s hlen _
    obtain ⟨b, hb, hstart⟩ := atJoin_apply s
    rw [parseJoins, bind_ok hb]
    cases b with
    | false => exact .stop fun hs => Bool.noConfusion (hstart.mpr hs)
    | true =>
      have hs := hstart.mp rfl
      obtain ⟨joinType, s₁, hjoin, hle, hreads⟩ := parseJoinType_reads s
      rw [if_pos rfl, bind_ok hjoin, expect, bind_assoc]
      rcases matchToken_tests .join s₁ with ⟨s₂, hm, hview⟩ | ⟨hm, hview⟩
      · rw [bind_ok hm]
        have hless : s₂.kinds.length < k - 1 := by
          rw [hview, List.length_cons] at hle
          omega
        have hexpr := h.less (P := fun _ => True) (Nat.sub_le k 1)
        have hrest := (parseIdent_goes.then fun name => parseAlias_goes.then fun rename =>
          (optional_goes .on hexpr).then fun on => parseJoins_goes
            (.join left (.table name rename) joinType on) (Nat.sub_le_of_le_add hk) hexpr)
          s₂ hless trivial
        refine Lands.imp hrest fun o ho => Reads.round hs (.seq (hreads _ ?_) ho)
        rw [hview]
        exact .token
      · rw [bind_ok hm]
        exact Reads.round hs (.seqStuck (hreads _ (.stuck hview)))

theorem parseTableRef_goes (hk : k ≤ n) (h : Goes k expr Syntax.expr) :
    Goes k (parseTableRef expr n) tableRef :=
  parseIdent_goes.then fun _ => parseAlias_goes.then fun _ => (parseJoins_goes _ hk h).last

theorem parseOrderTerm_goes (h : Goes k expr Syntax.expr) :
    Goes k (parseOrderTerm expr) orderTerm :=
  h.then fun _ => .branch (matchToken_tests .desc) (fun _ _ => .pure)
    ((matchToken_tests .asc).follows.map _)

theorem parseListBy_goes {α : Type} {item : ParserM α} (w : Word) (hk : k ≤ n) (h : Goes k item x) :
    Goes k (parseListBy w item n) (maybe w (.seq (word .by) (list x))) :=
  .branch (matchToken_tests w) (fun _ hj => (expect_goes .by).then fun _ =>
    commaList_goes (Nat.le_trans hj.le hk) (h.less hj.le)) .pure

/-- The condition in front of a clause: where it may begin with `,`, or no `,` is next. -/
def NoComma (comma : Bool) (w : List Kind) : Prop := comma = true ∨ w.head? ≠ some (.word .comma)

theorem parseOffset_goes (h : Goes k expr Syntax.expr) (comma : Bool) :
    FollowsIf grammar kinds (NoComma comma) k (parseOffset expr) (offset comma) := by
  have hfound : Goes k (do let _ ← matchToken .offset; let e ← expr; pure (some e))
      (.seq (maybe .offset .empty) Syntax.expr) :=
    (matchToken_tests .offset).follows.then fun _ => h.map some
  intro s hlen hP
  rw [parseOffset]
  rcases matchToken_tests .comma s with ⟨s', hm, hview⟩ | ⟨hm, hview⟩
  · obtain rfl : comma = true := hP.resolve_right fun hne => hne (by rw [hview]; rfl)
    rw [bind_ok hm, if_pos rfl, bind_ok (pure_apply true s'), if_pos rfl]
    have hless : s'.kinds.length < k := by
      rw [hview, List.length_cons] at hlen
      omega
    rw [hview]
    exact Lands.imp (hfound s' hless trivial) fun _ ho =>
      .left (starts_token.mpr rfl) (.seq .token ho)
  · have hrest : Goes k (do
        let found ← matchToken .offset
        if found then do
          let _ ← matchToken .offset
          let e ← expr
          pure (some e)
        else pure none) (maybe .offset (.seq (maybe .offset .empty) Syntax.expr)) :=
      .branch (matchToken_tests .offset) (fun _ hj => hfound.less hj.le) .pure
    rw [bind_ok hm, if_neg Bool.false_ne_true]
    have hlands := hrest s hlen trivial
    cases comma with
    | true => exact Lands.imp hlands fun _ ho => .right (fun hs => hview (starts_token.mp hs)) ho
    | false => exact hlands

theorem clause_goes {β : Type} {X : ParserM α} {f : α → ParserM β} (w : Word) (isList : Bool)
    (a : α) {rest : Bool → Syntax} (hX : Goes k X x)
    (hends : isList = true → ∀ {s b s'}, X s = .ok b s' → s'.kinds.head? ≠ some (.word .comma))
    (hf : ∀ b comma, FollowsIf grammar kinds (NoComma comma) k (f b) (rest comma)) (comma : Bool) :
    FollowsIf grammar kinds (NoComma comma) k ((do if ← matchToken w then X else pure a) >>= f)
      (clause w x isList rest comma) := by
  have hQ : ∀ {s b s'}, X s = .ok b s' → NoComma (!isList) s'.kinds := fun hs => by
    cases isList with
    | true => exact .inr (hends rfl hs)
    | false => exact .inl rfl
  exact .branch_bind (matchToken_tests w) (fun j hj => hX.less hj.le) hQ (fun b => hf b _) (hf a comma)

theorem parseSelect_goes (hk : k ≤ n) (h : Goes k expr Syntax.expr) :
    Goes k (parseSelect expr n) (.rule .select) := by
  have hlist : ∀ {α : Type} {item : ParserM α} {x : Syntax}, Goes k item x →
      Goes k (do expect .by; commaList item n) (.seq (word .by) (list x)) := fun hitem =>
    (expect_goes .by).then fun _ => commaList_goes hk hitem
  have hends : ∀ {α : Type} {item : ParserM α} {s b s'},
      (do expect .by; commaList item n : ParserM (List α)) s = .ok b s' →
      s'.kinds.head? ≠ some (.word .comma) := fun hs => by
    obtain ⟨_, _, -, hs⟩ := bind_eq_ok.mp hs
    exact commaList_ends hs
  have hclauses := fun distinct columns =>
    clause_goes .from false none ((parseTableRef_goes hk h).map some) nofun fun tables =>
    clause_goes .where false none (h.map some) nofun fun whereClause =>
    clause_goes .group true [] (hlist h) (fun _ => hends) fun groupBy =>
    clause_goes .having false none (h.map some) nofun fun having =>
    clause_goes .order true [] (hlist (parseOrderTerm_goes h)) (fun _ => hends) fun orderBy =>
    clause_goes .limit false none (h.map some) nofun fun limit comma =>
    (parseOffset_goes h comma).map fun offset => Select.mk distinct columns tables whereClause groupBy
      having orderBy limit offset
  have hbody : Goes k (parseSelect expr n) Syntax.select :=
    (matchToken_tests .distinct).follows.then fun distinct =>
      FollowsIf.branch_bind (matchToken_tests .star) (fun _ _ => .pure) (fun _ => .inl rfl)
        (fun columns => hclauses distinct columns true)
        ((commaList_goes hk (parseResultColumn_goes h)).bind (fun hs => .inr (commaList_ends hs))
          fun columns => hclauses distinct columns false)
  exact fun s hlen hs => Lands.imp (hbody s hlen hs) fun _ ho => .rule ho

end

theorem parseExpr_goes [DebugText] : ∀ n, Goes n (parseExpr n) Syntax.expr
  | 0 => goes_zero
  | n + 1 => by
    have h := parseExpr_goes n
    have hbody : Goes (n + 1) (parseExpr (n + 1)) orExpr := parseOrExpr_goes (Nat.le_refl _)
      (parsePrimaryExpr_goes (Nat.le_refl _) h (parseSelect_goes (Nat.le_refl n) h))
    exact fun s hlen hs => Lands.imp (hbody s hlen hs) fun _ ho => .rule ho

/-! ## Statements -/

theorem parseOrConflict_goes : Goes k parseOrConflict
    (maybe .or (op .rollback <| op .abortKw <| op .fail <| op .ignore <| maybe .replace .empty)) :=
  .branch (matchToken_tests .or) (fun _ _ => .branch (matchToken_tests _) (fun _ _ => .pure) <|
    .branch (matchToken_tests _) (fun _ _ => .pure) <| .branch (matchToken_tests _) (fun _ _ => .pure) <|
    .branch (matchToken_tests _) (fun _ _ => .pure) <|
    .branch (matchToken_tests _) (fun _ _ => .pure) .pure) .pure

theorem parseList_goes {item : ParserM α} (hk : k ≤ n) (h : Goes k item x) :
    Goes k (parseList item n) (inParens x) :=
  (expect_goes .lParen).then fun _ => (commaList_goes hk h).then fun _ =>
    (expect_goes .rParen).then fun _ => .pure

theorem parseIfNotExists_goes : Goes k parseIfNotExists ifNotExists :=
  .branch (matchToken_tests .if) (fun _ _ => (expect_goes .not).then fun _ =>
    (expect_goes .exists).then fun _ => .pure) .pure

theorem parseCreateIndex_goes (hk : k ≤ n) (unique : Bool) :
    Goes k (parseCreateIndex unique n) createIndex :=
  parseIfNotExists_goes.then fun _ => parseIdent_goes.then fun _ => (expect_goes .on).then fun _ =>
    parseIdent_goes.then fun _ => (parseList_goes hk parseIdent_goes).then fun _ => .pure

theorem parseColumnType_goes : Goes k parseColumnType columnType := by
  refine .branch (matchToken_tests _) (fun _ _ => .pure) <|
    .branch (matchToken_tests _) (fun _ _ => .pure) <| .branch (matchToken_tests _) (fun _ _ => .pure) <|
    .branch (matchToken_tests _) (fun _ _ => .pure) <|
    .branch (matchToken_tests _) (fun _ _ => .pure) ?_
  intro s _ _
  have hskip : s.kinds.head? ≠ some .ident → Reads grammar (.opt (.token .ident)) s.kinds (.ok s.kinds) :=
    fun hne => .right (fun ⟨a, ha, hw⟩ => hne (List.mem_singleton.mp ha ▸ hw)) .empty
  rw [bind_ok (currentToken_apply s)]
  cases hcur : s.tokens[s.pos]? with
  | none =>
    refine hskip ?_
    rw [kinds_none hcur]
    exact nofun
  | some t =>
    have hkinds := kinds_some hcur
    have hother : t.token.kind ≠ .ident →
        Reads grammar (.opt (.token .ident)) s.kinds (.ok s.kinds) := fun hne => by
      refine hskip ?_
      rw [hkinds]
      exact fun h => hne (Option.some.inj h)
    obtain ⟨token, start, stop⟩ := t
    cases token with
    | ident name =>
      refine lands_advance hcur ?_
      rw [hkinds]
      exact .left ⟨_, List.mem_singleton_self _, rfl⟩ .token
    | _ => exact hother nofun

theorem parsePrimaryKeys_goes : ∀ {n k : Nat}, k ≤ n → Goes k (parsePrimaryKeys n)
    (.star (parts [word .primary, word .key, maybe .autoincrement .empty]))
  | 0, _, hk => fun _ hlen _ => absurd (Nat.lt_of_lt_of_le hlen hk) (Nat.not_lt_zero _)
  | n + 1, k, hk => by
    intro s hlen _
    rw [parsePrimaryKeys]
    rcases matchToken_tests .primary s with ⟨s', hm, hview⟩ | ⟨hm, hview⟩
    · rw [bind_ok hm, if_pos rfl, hview]
      have hless : s'.kinds.length < k - 1 := by
        rw [hview, List.length_cons] at hlen
        omega
      have hrest := ((expect_goes .key).then fun _ =>
        (matchToken_tests .autoincrement).follows.then fun auto =>
        (parsePrimaryKeys_goes (Nat.sub_le_of_le_add hk)).map fun rest =>
          ColumnConstraint.primaryKey auto :: rest) s' hless trivial
      have hs : grammar.Starts (parts [word .primary, word .key, maybe .autoincrement .empty])
        (.word .primary :: s'.kinds) := starts_token.mpr rfl
      exact Lands.imp hrest fun _ ho => Reads.round hs (.seq .token ho)
    · rw [bind_ok hm]
      exact .stop fun hs => hview (starts_token.mp hs)

theorem parseDropTable_goes : Goes k parseDropTable dropTable :=
  .then (.branch (matchToken_tests .if) (fun _ _ => (expect_goes .exists).map _) .pure) fun _ =>
    parseIdent_goes.then fun _ => .pure

theorem parseDrop_goes : Goes k parseDrop (.seq (word .table) dropTable) :=
  (expect_goes .table).then fun _ => parseDropTable_goes.map _

section
variable [DebugText] (n)

theorem parseExpr_less (hk : k ≤ n) : Goes k (parseExpr n) Syntax.expr := (parseExpr_goes n).less hk

theorem parseInsert_goes (hk : k ≤ n) : Goes k (parseInsert n) insert :=
  parseOrConflict_goes.then fun _ => (expect_goes .into).then fun _ => parseIdent_goes.then fun _ =>
    .then (.branch (matchToken_tests .lParen) (fun _ hj =>
      (commaList_goes (Nat.le_trans hj.le hk) parseIdent_goes).then fun _ =>
        (expect_goes .rParen).then fun _ => .pure) .pure) fun _ =>
    (expect_goes .values).then fun _ =>
    (commaList_goes hk (parseList_goes hk (parseExpr_less n hk))).then fun _ => .pure

theorem parseAssignment_goes (hk : k ≤ n) :
    Goes k (parseAssignment n) (parts [ident, word .eq, Syntax.expr]) :=
  parseIdent_goes.then fun _ => (expect_goes .eq).then fun _ => (parseExpr_less n hk).then fun _ => .pure

theorem parseUpdate_goes (hk : k ≤ n) : Goes k (parseUpdate n) update :=
  parseIdent_goes.then fun _ => (expect_goes .set).then fun _ =>
    (commaList_goes hk (parseAssignment_goes n hk)).then fun _ =>
    (optional_goes .where (parseExpr_less n hk)).then fun _ => .pure

theorem parseDelete_goes (hk : k ≤ n) : Goes k (parseDelete n) delete :=
  (expect_goes .from).then fun _ => parseIdent_goes.then fun _ =>
    (optional_goes .where (parseExpr_less n hk)).then fun _ => .pure

theorem parseColumnDef_goes (hk : k ≤ n) : Goes k (parseColumnDef n) columnDef :=
  parseIdent_goes.then fun _ => parseColumnType_goes.then fun _ => (parsePrimaryKeys_goes hk).then fun _ =>
    .then (.branch (matchToken_tests .not) (fun _ _ => (expect_goes .null).map _) .pure) fun _ =>
    (matchToken_tests .unique).follows.then fun _ =>
    (optional_goes .default (parseExpr_less n hk)).then fun _ => .pure

theorem parseCreateTable_goes (hk : k ≤ n) : Goes k (parseCreateTable n) createTable :=
  parseIfNotExists_goes.then fun _ => parseIdent_goes.then fun _ =>
    (parseList_goes hk (parseColumnDef_goes n hk)).then fun _ => .pure

theorem parsePragma_goes (hk : k ≤ n) : Goes k (parsePragma n) pragma :=
  parseIdent_goes.then fun _ =>
    .branch (matchToken_tests .eq) (fun _ hj => (parseExpr_less n (Nat.le_trans hj.le hk)).map _) <|
    .branch (matchToken_tests .lParen) (fun _ hj => (parseExpr_less n (Nat.le_trans hj.le hk)).then fun _ =>
      (expect_goes .rParen).then fun _ => .pure) .pure

theorem parseCreate_goes (hk : k ≤ n) : Goes k (parseCreate n)
    (.seq (maybe .unique .empty) (case .index createIndex (.seq (word .table) createTable))) :=
  (matchToken_tests .unique).follows.then fun _ =>
    .branch (matchToken_tests .index) (fun _ hj =>
      (parseCreateIndex_goes (Nat.le_trans hj.le hk) _).map _)
      ((expect_goes .table).then fun _ => (parseCreateTable_goes n hk).map _)

theorem parseStatement_goes : Goes n (parseStatement n) statement := by
  have hless : ∀ {j}, j < n → j ≤ n := fun hj => hj.le
  exact .branch (matchToken_tests _) (fun _ hj =>
      (parseSelect_goes (hless hj) (parseExpr_less n (hless hj))).map _) <|
    .branch (matchToken_tests _) (fun _ hj => (parseInsert_goes n (hless hj)).map _) <|
    .branch (matchToken_tests _) (fun _ hj => (parseUpdate_goes n (hless hj)).map _) <|
    .branch (matchToken_tests _) (fun _ hj => (parseDelete_goes n (hless hj)).map _) <|
    .branch (matchToken_tests _) (fun _ hj => parseCreate_goes n (hless hj)) <|
    .branch (matchToken_tests _) (fun _ _ => parseDrop_goes) <|
    .branch (matchToken_tests _) (fun _ hj => (parsePragma_goes n (hless hj)).map _) <|
    .branch (matchToken_tests _) (fun _ _ => .pure) <|
    .branch (matchToken_tests _) (fun _ _ => .pure) <|
    .demand (matchToken_tests _) (fun _ _ => .pure) (error_apply _)

end

end Parser

end Sqllite
