import Sqllite.L3Sql.ParserReads

/-!
# What a text with a statement in front is taken for

`parse_one` stops behind the first statement and looks at nothing that stands behind
it, and the tokens come without the lexemes that match no pattern.

* `parseOne_whole_iff`: which texts are taken as a whole.
-/
namespace Sqllite
open Lib Lib.Run Lib.Predictive

/-- The kinds of the tokens behind the statement. -/
def leftBehind [DebugText] (items : List (Option SpannedToken)) : List Kind :=
  let tokens := tokenize items
  (post (Parser.parseStatement (tokens.length + 1)) (Parser.new tokens)).kinds

/-- The text has no lexing error, and only semicolons stand behind its statement. -/
def TakenWhole (items : List (Option SpannedToken)) (behind : List Kind) : Prop :=
  (∀ item ∈ items, item ≠ none) ∧ ∀ k ∈ behind, k = .word .semi

/-- A sentence of the grammar that the next token cannot go on with. -/
def Ended (p behind : List Kind) : Prop :=
  Derives grammar Syntax.statement p ∧
    ∀ k, behind.head? = some k → ¬ ∃ q, Derives grammar Syntax.statement (p ++ k :: q)

/-- What `parse_one` accepts is taken as a whole exactly if that is so of every start of
the text that is a statement and ends there. -/
theorem parseOne_whole_iff [DebugText] (lexer : String → List (Option SpannedToken)) (sql : String) :
    (∀ stmt, parseOne (lexer sql) = .ok stmt → TakenWhole (lexer sql) (leftBehind (lexer sql))) ↔
    ∀ p behind, (tokenize (lexer sql)).map (·.token.kind) = p ++ behind → Ended p behind →
      TakenWhole (lexer sql) behind := by
  generalize lexer sql = items
  let tokens := tokenize items
  have hkinds : (Parser.new tokens).kinds = tokens.map (·.token.kind) := rfl
  have hrun := Parser.parseStatement_goes (tokens.length + 1) (Parser.new tokens)
    (by rw [hkinds, List.length_map]; exact Nat.lt_succ_self _) trivial
  have hread : ∀ {o}, Reads grammar Syntax.statement (tokens.map (·.token.kind)) o → ∀ {r}, o = .ok r ↔
      ∃ p, tokens.map (·.token.kind) = p ++ r ∧ Ended p r :=
    fun h => reads_iff grammar_lookaheadOne grammar_rule statement_predictive h
  have hone : ∀ {r}, Parser.parseStatement (tokens.length + 1) (Parser.new tokens) = r →
      parseOne items = (match r with
        | .ok stmt _ => .ok stmt
        | .error e _ => .error e) := by
    intro r hr
    show outcome (Parser.parseStatement (tokens.length + 1)) (Parser.new tokens) = _
    rw [outcome, hr]
    cases r <;> rfl
  cases hres : Parser.parseStatement (tokens.length + 1) (Parser.new tokens) with
  | ok stmt s =>
    rw [hres] at hrun
    have hleft : leftBehind items = s.kinds := congrArg Parser.kinds (post_ok hres)
    rw [hone hres, hleft]
    constructor
    · intro h p behind hsplit hends
      have hbehind := (hread hrun).mpr ⟨p, hsplit, hends⟩
      rw [← Except.ok.inj hbehind]
      exact h stmt rfl
    · intro h _ _
      obtain ⟨p, hsplit, hends⟩ := (hread hrun).mp rfl
      exact h p _ hsplit hends
  | error e s =>
    rw [hres] at hrun
    rw [hone hres]
    refine iff_of_true (fun _ h => by cases h) fun p behind hsplit hends => ?_
    cases e with
    | err e => cases (hread hrun).mpr ⟨p, hsplit, hends⟩
    | panic => exact hrun.elim

/-- `DELETE FROM t WHRE a = 1`. -/
def deleteWhre : List (Option SpannedToken) :=
  [some ⟨.word .delete, 0, 6⟩, some ⟨.word .from, 7, 11⟩, some ⟨.ident "t", 12, 13⟩,
    some ⟨.ident "WHRE", 14, 18⟩, some ⟨.ident "a", 19, 20⟩, some ⟨.word .eq, 21, 22⟩,
    some ⟨.integerLit 1, 23, 24⟩]

/-- The statement deletes every row. -/
theorem parseOne_drops_condition : let _ : DebugText := ⟨fun _ => ""⟩
    parseOne deleteWhre = .ok (.delete { table := "t", whereClause := none }) ∧
    ¬ TakenWhole deleteWhre (leftBehind deleteWhre) := by
  intro _
  refine ⟨rfl, fun h => ?_⟩
  have hsemi := h.2 .ident (by decide +kernel)
  cases hsemi

end Sqllite
