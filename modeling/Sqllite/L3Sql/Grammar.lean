import Sqllite.Lib.Predictive
import Sqllite.L3Sql.Lexer

/-!
# The grammar of statements

The sentences the parser takes, over the kinds of the tokens. A `,` in front of an
offset stands behind a clause that is no list only: behind a list, the list goes on.

* `grammar_lookaheadOne`: one token of lookahead decides every choice.
* `grammar_rule`: every rule has a sentence.
-/
namespace Sqllite
open Lib.Predictive

/-- The recursive parts. -/
inductive Rule where
  | expr | notExpr | unaryExpr | select
  deriving DecidableEq

abbrev Syntax := Ebnf Kind Rule

namespace Syntax

def word (w : Word) : Syntax := .token (.word w)

/-- One part behind the other. -/
def parts (xs : List Syntax) : Syntax := xs.foldr .seq .empty

/-- `w x | y`. -/
def case (w : Word) (x y : Syntax) : Syntax := .alt (.seq (word w) x) y

/-- `(w x)?`. -/
def maybe (w : Word) (x : Syntax) : Syntax := case w x .empty

/-- `x (, x)*`. -/
def list (x : Syntax) : Syntax := .seq x (.star (.seq (word .comma) x))

/-- `x (op x)*`. -/
def chain (op x : Syntax) : Syntax := .seq x (.star (.seq op x))

/-- A choice of the kinds of a name, each with the same part behind it. -/
def named (x : Syntax) : Syntax :=
  .alt (.seq (.token .ident) x) (.alt (.seq (.token .quotedIdent) x) (.seq (.token .backtickIdent) x))

def ident : Syntax := named .empty

def expr : Syntax := .rule .expr

/-! ## Expressions -/

def identExpr : Syntax :=
  case .lParen (case .rParen .empty (.seq (list expr) (word .rParen))) (maybe .dot ident)

def count : Syntax :=
  parts [word .lParen, maybe .distinct .empty, case .star .empty (list expr), word .rParen]

def paren : Syntax :=
  case .select (parts [.rule .select, word .rParen]) (parts [expr, word .rParen])

def literal (k : Kind) (y : Syntax) : Syntax := .alt (.seq (.token k) .empty) y

def primaryExpr : Syntax :=
  case .null .empty <| literal .integerLit <| literal .realLit <| literal .stringLit <|
    literal .blobLit <| case .star .empty <| case .lParen paren <| case .count count <|
    named identExpr

def unaryExpr : Syntax :=
  case .minus (.rule .unaryExpr) (case .plus (.rule .unaryExpr) primaryExpr)

/-- `w | y`. -/
def op (w : Word) (y : Syntax) : Syntax := case w .empty y

def multiplicativeExpr : Syntax :=
  chain (op .star <| op .slash <| parts [word .percent]) (.rule .unaryExpr)

def additiveExpr : Syntax :=
  chain (op .plus <| op .minus <| parts [word .concat]) multiplicativeExpr

def comparisonExpr : Syntax :=
  chain (op .eq <| op .eqEq <| op .notEq <| op .lt <| op .le <| op .gt <| op .ge <| op .like <|
    .seq (word .is) (maybe .not .empty)) additiveExpr

def notExpr : Syntax := case .not (.rule .notExpr) comparisonExpr

def andExpr : Syntax := chain (parts [word .and]) (.rule .notExpr)

def orExpr : Syntax := chain (parts [word .or]) andExpr

/-! ## Queries -/

def resultColumn : Syntax := .seq expr (maybe .as ident)

def join : Syntax :=
  .alt (.seq (word .cross) (word .join)) <| .alt (.seq (word .left) (word .join)) <|
    .alt (.seq (word .inner) (word .join)) (word .join)

def tableRef : Syntax :=
  parts [ident, .opt ident, .star (parts [join, ident, .opt ident, maybe .on expr])]

def orderTerm : Syntax := .seq expr (op .desc (maybe .asc .empty))

/-- With a `,` in front where `comma` says so. -/
def offset (comma : Bool) : Syntax :=
  let found := .seq (maybe .offset .empty) expr
  if comma then case .comma found (maybe .offset found) else maybe .offset found

/-- `w x rest | rest`: behind `x` a `,` goes on with an offset, unless `x` is a list. -/
def clause (w : Word) (x : Syntax) (isList : Bool) (rest : Bool → Syntax) (comma : Bool) : Syntax :=
  case w (.seq x (rest (!isList))) (rest comma)

def clauses : Bool → Syntax :=
  clause .from tableRef false <| clause .where expr false <|
    clause .group (.seq (word .by) (list expr)) true <| clause .having expr false <|
    clause .order (.seq (word .by) (list orderTerm)) true <| clause .limit expr false offset

def select : Syntax :=
  .seq (maybe .distinct .empty) <|
    case .star (.seq .empty (clauses true)) (.seq (list resultColumn) (clauses false))

/-! ## Statements -/

def inParens (x : Syntax) : Syntax := parts [word .lParen, list x, word .rParen]

def insert : Syntax :=
  parts [maybe .or (op .rollback <| op .abortKw <| op .fail <| op .ignore <| maybe .replace .empty),
    word .into, ident, maybe .lParen (parts [list ident, word .rParen]), word .values,
    list (inParens expr)]

def update : Syntax :=
  parts [ident, word .set, list (parts [ident, word .eq, expr]), maybe .where expr]

def delete : Syntax := parts [word .from, ident, maybe .where expr]

def ifNotExists : Syntax := maybe .if (parts [word .not, word .exists])

def createIndex : Syntax := parts [ifNotExists, ident, word .on, ident, inParens ident]

def columnType : Syntax :=
  op .integer <| op .real <| op .text <| op .blob <| op .null <| .opt (.token .ident)

def columnDef : Syntax :=
  parts [ident, columnType,
    .star (parts [word .primary, word .key, maybe .autoincrement .empty]),
    maybe .not (word .null), maybe .unique .empty, maybe .default expr]

def createTable : Syntax := parts [ifNotExists, ident, inParens columnDef]

def dropTable : Syntax := parts [maybe .if (word .exists), ident]

def pragma : Syntax :=
  .seq ident (case .eq expr (maybe .lParen (parts [expr, word .rParen])))

def statement : Syntax :=
  case .select (.rule .select) <| case .insert insert <| case .update update <| case .delete delete <|
    case .create (.seq (maybe .unique .empty) (case .index createIndex (.seq (word .table) createTable))) <|
    case .drop (.seq (word .table) dropTable) <| case .pragma pragma <| case .begin .empty <|
    case .commit .empty <| .seq (word .rollback) .empty

end Syntax

/-- The kinds an operand begins with. -/
def operandFirst : List Kind :=
  [.word .minus, .word .plus, .word .null, .integerLit, .realLit, .stringLit, .blobLit, .word .star,
    .word .lParen, .word .count, .ident, .quotedIdent, .backtickIdent]

/-- The kinds that go on with a name. -/
def nameMore : List Kind := [.word .lParen, .word .dot]

/-- The operators but `AND` and `OR`. -/
def operators : List Kind :=
  [.word .star, .word .slash, .word .percent, .word .plus, .word .minus, .word .concat, .word .eq,
    .word .eqEq, .word .notEq, .word .lt, .word .le, .word .gt, .word .ge, .word .like, .word .is]

/-- The grammar of statements. -/
def grammar : Grammar Kind Rule where
  body
    | .expr => Syntax.orExpr
    | .notExpr => Syntax.notExpr
    | .unaryExpr => Syntax.unaryExpr
    | .select => Syntax.select
  first
    | .expr => .word .not :: operandFirst
    | .notExpr => .word .not :: operandFirst
    | .unaryExpr => operandFirst
    | .select => .word .distinct :: .word .not :: operandFirst
  more
    | .expr => .word .or :: .word .and :: operators ++ nameMore
    | .notExpr => operators ++ nameMore
    | .unaryExpr => nameMore
    | .select => [.word .comma, .word .offset, .word .limit, .word .order, .word .having,
        .word .group, .word .where, .word .from, .word .as, .word .desc, .word .asc, .ident,
        .quotedIdent, .backtickIdent, .word .cross, .word .left, .word .inner, .word .join,
        .word .on, .word .or, .word .and] ++ operators ++ nameMore

theorem mores_seq {x y : Syntax} {S : List Kind} (hx : grammar.mores x ⊆ S)
    (hy : grammar.mores y ⊆ S) : grammar.mores (.seq x y) ⊆ S := by
  refine List.append_subset.mpr ⟨hy, ?_⟩
  split
  · exact hx
  · exact List.nil_subset S

theorem mores_case {w : Word} {x y : Syntax} {S : List Kind} (hw : Kind.word w ∈ S)
    (hx : grammar.mores x ⊆ S) (hy : grammar.mores y ⊆ S) :
    grammar.mores (Syntax.case w x y) ⊆ S := by
  refine List.append_subset.mpr ⟨List.append_subset.mpr
    ⟨mores_seq (List.nil_subset S) hx, hy⟩, ?_⟩
  split
  · exact List.cons_subset.mpr ⟨hw, List.nil_subset S⟩
  · exact List.nil_subset S

theorem mores_clause {w : Word} {x : Syntax} {isList : Bool} {rest : Bool → Syntax} {S : List Kind}
    (hw : Kind.word w ∈ S) (hx : grammar.mores x ⊆ S) (hrest : ∀ c, grammar.mores (rest c) ⊆ S)
    (c : Bool) : grammar.mores (Syntax.clause w x isList rest c) ⊆ S :=
  mores_case hw (mores_seq hx (hrest _)) (hrest c)

theorem mores_clauses : ∀ c, grammar.mores (Syntax.clauses c) ⊆ grammar.more .select := by
  have hoffset : ∀ c, grammar.mores (Syntax.offset c) ⊆ grammar.more .select := by decide +kernel
  exact mores_clause (by decide) (by decide +kernel) <|
    mores_clause (by decide) (by decide +kernel) <|
    mores_clause (by decide) (by decide +kernel) <|
    mores_clause (by decide) (by decide +kernel) <|
    mores_clause (by decide) (by decide +kernel) <|
    mores_clause (by decide) (by decide +kernel) hoffset

example : Kind.word .offset ∈ grammar.mores (Syntax.clauses true) := by decide +kernel

theorem mores_select : grammar.mores Syntax.select ⊆ grammar.more .select := by
  have hrest : grammar.mores (Syntax.case .star (.seq .empty (Syntax.clauses true))
      (.seq (Syntax.list Syntax.resultColumn) (Syntax.clauses false))) ⊆ grammar.more .select :=
    mores_case (by decide) (mores_seq (List.nil_subset _) (mores_clauses true))
      (mores_seq (by decide +kernel) (mores_clauses false))
  refine List.append_subset.mpr ⟨hrest, ?_⟩
  rw [if_neg (by decide)]
  exact List.nil_subset _

theorem grammar_lookaheadOne : grammar.LookaheadOne where
  solid := by rintro ⟨⟩ <;> decide +kernel
  first := by rintro ⟨⟩ <;> decide +kernel
  more
    | .expr => by decide +kernel
    | .notExpr => by decide +kernel
    | .unaryExpr => by decide +kernel
    | .select => mores_select
  body := by rintro ⟨⟩ <;> decide +kernel

example : grammar.predictive Syntax.insert = true := by decide +kernel

theorem statement_predictive : grammar.predictive Syntax.statement = true := by decide +kernel

/-! ## Sentences of the rules -/

theorem derives_null : Derives grammar Syntax.primaryExpr [.word .null] := .left (.seq .token .empty)

theorem derives_chain {op x : Syntax} {p : List Kind} (h : Derives grammar x p) :
    Derives grammar (Syntax.chain op x) p := by
  have hall : Derives grammar (Syntax.chain op x) (p ++ []) := .seq h .nil
  rwa [List.append_nil] at hall

theorem derives_unaryExpr : Derives grammar (.rule .unaryExpr) [.word .null] :=
  .rule (.right (by decide) (.right (by decide) derives_null))

theorem derives_notExpr : Derives grammar (.rule .notExpr) [.word .null] :=
  .rule (.right (by decide) (derives_chain (derives_chain (derives_chain derives_unaryExpr))))

theorem derives_select : Derives grammar (.rule .select) [.word .star] := by
  have hskip : ∀ {w : Word} {x y : Syntax}, Derives grammar y [] → Derives grammar (Syntax.case w x y) [] :=
    fun h => .right Grammar.not_starts_nil h
  have hclauses : Derives grammar (Syntax.clauses true) [] :=
    hskip (hskip (hskip (hskip (hskip (hskip (hskip (hskip .empty)))))))
  have hstar : Derives grammar (Syntax.case .star (.seq .empty (Syntax.clauses true))
      (.seq (Syntax.list Syntax.resultColumn) (Syntax.clauses false))) ([.word .star] ++ ([] ++ [])) :=
    .left (.seq .token (.seq .empty hclauses))
  exact .rule (.seq (hskip .empty) hstar)

/-- Every rule has a sentence. -/
theorem grammar_rule : ∀ a, ∃ p, Derives grammar (.rule a) p
  | .expr => ⟨_, .rule (derives_chain (derives_chain derives_notExpr))⟩
  | .notExpr => ⟨_, derives_notExpr⟩
  | .unaryExpr => ⟨_, derives_unaryExpr⟩
  | .select => ⟨_, derives_select⟩

example : grammar.predictive (Syntax.list Syntax.resultColumn) = true := by decide +kernel

end Sqllite
