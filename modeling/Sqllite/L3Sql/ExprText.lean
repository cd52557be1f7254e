import Sqllite.L3Sql.Signs
import Sqllite.L3Sql.Spelling

/-!
# Texts of expressions

An arithmetic or comparison expression is written without blanks, or with one on each
side of every operator. The lexer makes the sign a part of an integer and `--` a comment,
so what stands behind a `-` decides what the text without blanks is.

* `Written.takes`: the tokens of a written expression are parsed to it.
* `compact_spaced_iff`: the two texts are parsed to the same expression where no `-` stands
  in front of an integer or of another `-`; elsewhere they are not.
-/
namespace Sqllite
open Lib Lib.Run

/-! ## Written expressions -/

/-- A name, in quotes or not. -/
def Token.Names (t : Token) (name : String) : Prop :=
  t = .ident name ∨ t = .quotedIdent name ∨ t = .backtickIdent name

/-- The arithmetic and comparison operators, and their words. -/
inductive Operates : BinaryOp → Word → Prop
  | eq : Operates .eq .eq
  | eqEq : Operates .eq .eqEq
  | notEq : Operates .notEq .notEq
  | lt : Operates .lt .lt
  | le : Operates .le .le
  | gt : Operates .gt .gt
  | ge : Operates .ge .ge
  | add : Operates .add .plus
  | sub : Operates .sub .minus
  | mul : Operates .mul .star
  | div : Operates .div .slash
  | mod : Operates .mod .percent

/-- The tokens of an arithmetic or comparison expression at a place of precedence `l`;
an integer has no sign of its own. -/
inductive Written : Nat → Expr → List Token → Prop
  | ident {l t name} : t.Names name → Written l (.ident name) [t]
  | qualifiedIdent {l t t' table column} : t.Names table → t'.Names column →
      Written l (.qualifiedIdent table column) [t, .word .dot, t']
  | integer {l} (n : Int64) : Written l (.integer n) [.integerLit n]
  | paren {l e w} : Written 0 e w → Written l e (inParens w)
  | minus {l e w} : l ≤ 6 → Written 6 e w → Written l (.unaryOp .minus e) (.word .minus :: w)
  | plus {l e w} : l ≤ 6 → Written 6 e w → Written l e (.word .plus :: w)
  | binaryOp {l op o a b v w} : Operates op o → l ≤ op.level → Written op.level a v →
      Written (op.level + 1) b w → Written l (.binaryOp op a b) (v ++ .word o :: w)

variable {l : Nat} {e : Expr} {w : List Token}

theorem Operates.spelled {op : BinaryOp} {o : Word} (h : Operates op o) :
    op.spoken = true ∧ ∃ sp, operatorTokens sp op = [.word o] := by
  cases h with
  | eqEq => exact ⟨rfl, { name := .ident, eq := .eqEq, name_eq := fun _ => .inl rfl, eq_eq := .inr rfl }, rfl⟩
  | eq | notEq | lt | le | gt | ge | add | sub | mul | div | mod => exact ⟨rfl, Parser.plain, rfl⟩

theorem Token.Names.not_word {t : Token} {name : String} (h : t.Names name) : ∀ v, t ≠ .word v := by
  intro v
  rcases h with rfl | rfl | rfl <;> exact nofun

theorem Written.begins (h : Written l e w) : Begins l w := by
  induction h with
  | ident ht => exact .of_not_word ht.not_word
  | qualifiedIdent ht _ => exact .of_not_word ht.not_word
  | integer n => exact .of_not_word nofun
  | paren _ _ => exact ⟨_, _, rfl, fun v hv => .inr (.inl (Token.word.inj hv).symm)⟩
  | minus hl _ _ => exact ⟨_, _, rfl, fun v hv => .inr (.inr (.inl ⟨.inl (Token.word.inj hv).symm, hl⟩))⟩
  | plus hl _ _ => exact ⟨_, _, rfl, fun v hv => .inr (.inr (.inl ⟨.inr (Token.word.inj hv).symm, hl⟩))⟩
  | binaryOp _ hl _ _ iha _ => exact (iha.mono hl).append _

section
variable [DebugText]
open Sqllite.Parser

/-- The tokens of a written expression are taken at every level up to its own. -/
theorem Written.takes (h : Written l e w) (hl : l ≤ 7) : Takes l e w ∧ (Parser.IsChain l → Feeds l e w) := by
  have hseven : ¬ Parser.IsChain 7 := by simp [Parser.IsChain]
  have hsix : ¬ Parser.IsChain 6 := by simp [Parser.IsChain]
  induction h with
  | ident ht => exact takes_all (takes_ident ht) (.of_not_word ht.not_word) (Nat.le_refl 7) hseven hl
  | qualifiedIdent ht ht' =>
    exact takes_all (takes_qualifiedIdent ht ht') (.of_not_word ht.not_word) (Nat.le_refl 7) hseven hl
  | integer n =>
    have hatom : Atom plain (.integer n) [.integerLit n] := .integer n
    exact takes_all (atom_takes hatom) (.of_not_word (by simp)) (Nat.le_refl 7) hseven hl
  | @paren l e w h ih =>
    have hbegins : Begins 7 (inParens w) := (Written.paren (l := 7) h).begins
    exact takes_all (takes_paren h.begins (ih (Nat.zero_le 7)).1) hbegins (Nat.le_refl 7) hseven hl
  | minus hle h ih =>
    have hbegins := (Written.minus (Nat.le_refl 6) h).begins
    exact takes_all (takes_minus (ih (by omega)).1) hbegins (by omega) hsix hle
  | plus hle h ih =>
    have hbegins := (Written.plus (Nat.le_refl 6) h).begins
    exact takes_all (takes_plus (ih (by omega)).1) hbegins (by omega) hsix hle
  | @binaryOp l op o a b v w ho hle ha hb iha ihb =>
    have hlevel := level_le op
    have hchain := level_chain op
    obtain ⟨hop, sp, hwords⟩ := ho.spelled
    have hfeeds : Feeds op.level (.binaryOp op a b) (v ++ .word o :: w) := by
      have hop : Feeds op.level (.binaryOp op a b) (v ++ (operatorTokens sp op ++ w)) :=
        feeds_binaryOp hop ((iha (by omega)).2 hchain) (ihb (by omega)).1 hb.begins
      rw [hwords] at hop
      exact hop
    have htakes := hfeeds.takes hchain
    have hbegins := (Written.binaryOp ho (Nat.le_refl _) ha hb).begins
    refine ⟨htakes.down hbegins (by omega) hle, fun hc => ?_⟩
    rcases Nat.lt_or_eq_of_le hle with hlt | rfl
    · exact (htakes.down hbegins (by omega) hlt).feeds hc
    · exact hfeeds

end

/-! ## Neighbours -/

/-- The words of the operators. -/
def operatorWords : List Word :=
  [.eq, .eqEq, .notEq, .lt, .le, .gt, .ge, .plus, .minus, .star, .slash, .percent]

def Token.isOperator : Token → Bool
  | .word w => w ∈ operatorWords
  | _ => false

/-- The tokens that begin an operand. -/
def Token.opens : Token → Bool
  | .word w => w ∈ [.lParen, .minus, .plus]
  | .integerLit _ => true
  | t => t.kind.isIdent

/-- The tokens behind which an operand stands. -/
def Token.joins : Token → Bool
  | .word w => w ∈ operatorWords ++ [.lParen, .dot]
  | _ => false

/-- The tokens that end an operand. -/
def Token.closes : Token → Bool
  | .word w => w = .rParen
  | .integerLit _ => true
  | t => t.kind.isIdent

/-- The tokens behind an operand; a dot, behind a name only. -/
def Token.follows (t : Token) : Token → Bool
  | .word w => w ∈ operatorWords ++ [.rParen] ∨ w = .dot ∧ t.kind.isIdent = true
  | _ => false

/-- `u` may stand behind `t` in an expression. -/
def Beside (t u : Token) : Prop :=
  t.closes = true ∧ t.follows u = true ∨ t.joins = true ∧ u.opens = true

theorem Token.Names.kind {t : Token} {name : String} (h : t.Names name) : t.kind.isIdent = true := by
  rcases h with rfl | rfl | rfl <;> rfl

theorem Token.Names.ends {t : Token} {name : String} (h : t.Names name) : t.opens = true ∧ t.closes = true := by
  rcases h with rfl | rfl | rfl <;> exact ⟨rfl, rfl⟩

theorem Operates.mem {op : BinaryOp} {o : Word} (h : Operates op o) : o ∈ operatorWords := by
  cases h <;> decide

theorem Operates.beside {op : BinaryOp} {o : Word} {t u : Token} (h : Operates op o) (ht : t.closes = true)
    (hu : u.opens = true) : Beside t (.word o) ∧ Beside (.word o) u := by
  have ho := h.mem
  refine ⟨.inl ⟨ht, decide_eq_true (.inl (List.mem_append_left _ ho))⟩, .inr ⟨?_, hu⟩⟩
  exact decide_eq_true (List.mem_append_left _ ho)

/-- What an expression begins and ends with, and what stands beside what in it. -/
theorem Written.beside (h : Written l e w) : (∀ t ∈ w.head?, t.opens = true) ∧
    (∀ t ∈ w.getLast?, t.closes = true) ∧ w.IsChain Beside ∧ w ≠ [] := by
  induction h with
  | ident ht =>
    simp only [List.head?_cons, List.getLast?_singleton, Option.mem_some_iff, forall_eq']
    exact ⟨ht.ends.1, ht.ends.2, .singleton _, by simp⟩
  | @qualifiedIdent l t t' table column ht ht' =>
    simp only [List.head?_cons, List.getLast?_cons_cons, List.getLast?_singleton, Option.mem_some_iff, forall_eq']
    refine ⟨ht.ends.1, ht'.ends.2, ?_, by simp⟩
    refine .cons_cons (.inl ⟨ht.ends.2, decide_eq_true (.inr ⟨rfl, ht.kind⟩)⟩) (.cons_cons (.inr ⟨rfl, ht'.ends.1⟩) (.singleton _))
  | integer n =>
    simp only [List.head?_cons, List.getLast?_singleton, Option.mem_some_iff, forall_eq']
    exact ⟨rfl, rfl, .singleton _, by simp⟩
  | @paren l e w h ih =>
    obtain ⟨hhead, hlast, hchain, hne⟩ := ih
    rw [inParens, ← List.cons_append, List.getLast?_concat, List.cons_append, List.head?_cons]
    simp only [Option.mem_some_iff, forall_eq']
    refine ⟨rfl, rfl, ?_, by simp⟩
    rw [← List.cons_append, List.isChain_append]
    refine ⟨?_, .singleton _, fun t ht u hu => ?_⟩
    · cases w with
      | nil => exact absurd rfl hne
      | cons t w => exact .cons_cons (.inr ⟨rfl, hhead t rfl⟩) hchain
    · obtain rfl := Option.mem_some_iff.mp hu
      rw [List.getLast?_cons_of_ne_nil hne] at ht
      exact .inl ⟨hlast t ht, by simp [Token.follows]⟩
  | minus _ _ ih | plus _ _ ih =>
    obtain ⟨hhead, hlast, hchain, hne⟩ := ih
    rw [List.getLast?_cons_of_ne_nil hne, List.head?_cons]
    simp only [Option.mem_some_iff, forall_eq']
    refine ⟨rfl, hlast, ?_, by simp⟩
    obtain ⟨t, w, rfl⟩ := List.exists_cons_of_ne_nil hne
    exact .cons_cons (.inr ⟨rfl, hhead t rfl⟩) hchain
  | @binaryOp l op o a b v w ho _ _ _ iha ihb =>
    obtain ⟨hhead, hlast, hchain, hne⟩ := iha
    obtain ⟨hhead', hlast', hchain', hne'⟩ := ihb
    obtain ⟨u, w, rfl⟩ := List.exists_cons_of_ne_nil hne'
    refine ⟨?_, ?_, ?_, ?_⟩
    · rwa [List.head?_append_of_ne_nil _ hne]
    · rwa [List.getLast?_append_cons, List.getLast?_cons_cons]
    · rw [List.isChain_append]
      refine ⟨hchain, .cons_cons (ho.beside (t := .word .rParen) rfl (hhead' u rfl)).2 hchain', fun t ht x hx => ?_⟩
      obtain rfl := Option.mem_some_iff.mp hx
      exact (ho.beside (hlast t ht) (hhead' u rfl)).1
    · exact List.append_ne_nil_of_left_ne_nil hne _

/-- The two tokens that the lexer reads as one, or as a comment, without a blank. -/
def Glued : Token → Token → Bool
  | .word .minus, .word .minus => true
  | .word .minus, .integerLit _ => true
  | _, _ => false

/-- No `-` stands in front of an integer or of another `-`. -/
def Unglued (w : List Token) : Prop := w.IsChain fun t u => Glued t u = false

section
variable {t u : Token} {x y : List Char}

theorem keywordTexts_words : ∀ k ∈ keywordTexts, k.2 ∉ operatorWords ++ [.lParen, .rParen, .dot] := by decide

/-- Words of operators and parentheses have one kind of text. -/
theorem Spelled.of_word {v : Word} (h : Spelled (.word v) x) (hv : v ∈ operatorWords ++ [.lParen, .rParen, .dot]) :
    (x, v) ∈ operatorTexts := by
  generalize ht : Token.word v = t at h
  cases h with
  | operator h =>
    cases ht
    exact h
  | @ident x _ =>
    unfold identToken at ht
    split at ht
    · rename_i k hk
      cases ht
      obtain ⟨k, hfind, rfl⟩ := Option.map_eq_some_iff.mp hk
      exact absurd hv (keywordTexts_words k (List.mem_of_find?_eq_some hfind))
    · cases ht
  | integer | quotedIdent | backtickIdent => cases ht

/-- The characters that an operator or a closing parenthesis begins with. -/
def followChars : List Char := ['=', '!', '<', '>', '+', '-', '*', '/', '%', ')']

theorem operatorTexts_follow : ∀ o ∈ operatorTexts,
    (o.2 ∈ operatorWords ++ [.rParen] → o.1.head?.all (fun c => decide (c ∈ followChars)) = true) ∧
      (o.2 = .dot → o.1 = ['.']) ∧ (o.2 = .rParen → o.1 = [')']) := by decide

/-- A text of a token that ends an operand does not go on with an operator. -/
theorem Spelled.closes_apart (h : Spelled t x) (ht : t.closes = true) :
    (followChars.all fun c => !goesOn x c) = true ∧ (t.kind.isIdent = true → goesOn x '.' = false) := by
  cases h with
  | @operator x v h =>
    have hx : x = [')'] := (operatorTexts_follow _ h).2.2 (of_decide_eq_true ht)
    rw [hx]
    exact ⟨by decide, fun _ => by decide⟩
  | ident h =>
    simp only [goesOn_ident h]
    exact ⟨by decide, fun _ => by decide⟩
  | integer hne hd _ =>
    simp only [goesOn_digits hne hd]
    exact ⟨by decide, nofun⟩
  | quotedIdent | backtickIdent => exact ⟨rfl, fun _ => rfl⟩

/-- What an operand begins with; a sign or a digit show what it is. -/
theorem Spelled.opens_head (h : Spelled u y) (hu : u.opens = true) : ∀ c, y.head? = some c →
    (identStart c = true ∨ c.isDigit = true ∨ c ∈ ['(', '-', '+', '"', '\x60']) ∧
      (c = '-' ∨ c.isDigit = true → Glued (.word .minus) u = true) := by
  intro c hc
  cases h with
  | @operator y v h =>
    have hv : v ∈ [.lParen, .minus, .plus] := of_decide_eq_true hu
    have htable : ∀ o ∈ operatorTexts, o.2 ∈ [.lParen, .minus, .plus] → o.1.head?.all (fun c =>
        decide (c ∈ ['(', '-', '+', '"', '\x60']) && ((c != '-' && !c.isDigit) || o.2 == .minus)) = true := by decide
    have hhead := htable _ h hv
    rw [hc, Option.all_some, Bool.and_eq_true, decide_eq_true_eq, Bool.or_eq_true, Bool.and_eq_true, bne_iff_ne,
      Bool.not_eq_true', beq_iff_eq] at hhead
    refine ⟨.inr (.inr hhead.1), fun h => ?_⟩
    rcases hhead.2 with hnot | rfl
    · rcases h with h | h
      · exact absurd h hnot.1
      · rw [h] at hnot
        cases hnot.2
    · rfl
  | ident h =>
    cases y with
    | nil => cases h
    | cons d y =>
      obtain rfl := Option.some.inj hc
      rw [isIdentText, Bool.and_eq_true] at h
      refine ⟨.inl h.1, ?_⟩
      rintro (hm | hd)
      · exact absurd hm (ne_of_test h.1 (by decide))
      · rw [identStart_not_digit h.1] at hd
        cases hd
  | integer hne hd _ =>
    cases y with
    | nil => cases hc
    | cons d y =>
      obtain rfl := Option.some.inj hc
      rw [List.all_cons, Bool.and_eq_true] at hd
      exact ⟨.inr (.inl hd.1), fun _ => rfl⟩
  | quotedIdent | backtickIdent =>
    obtain rfl := Option.some.inj hc
    exact ⟨.inr (.inr (by decide)), fun h => absurd h (by decide)⟩

theorem operatorTexts_second : ∀ o ∈ operatorTexts, (o.1.tail.all fun c => decide (c ∈ ['|', '=', '<', '>'])) = true := by
  decide

theorem operatorTexts_minus : ∀ o ∈ operatorTexts, o.1 = ['-'] → o.2 = .minus := by decide

/-- Neighbours need no blank between them, unless they are glued. -/
theorem Beside.apart (h : Beside t u) (hg : Glued t u = false) (hx : Spelled t x) (hy : Spelled u y) :
    ∀ c, y.head? = some c → goesOn x c = false := by
  intro c hc
  rcases h with ⟨ht, hu⟩ | ⟨ht, hu⟩
  · obtain ⟨hfollow, hdot⟩ := hx.closes_apart ht
    cases u with
    | word v =>
      rcases of_decide_eq_true hu with hv | ⟨rfl, hname⟩
      · have hy := hy.of_word (by
          rcases List.mem_append.mp hv with hv | hv
          · exact List.mem_append_left _ hv
          · rw [List.mem_singleton.mp hv]
            decide)
        have hhead := (operatorTexts_follow _ hy).1 hv
        rw [hc, Option.all_some, decide_eq_true_eq] at hhead
        simpa using List.all_eq_true.mp hfollow c hhead
      · have hy := hy.of_word (by decide)
        have hdotText : y = ['.'] := (operatorTexts_follow _ hy).2.1 rfl
        rw [hdotText] at hc
        rw [← Option.some.inj hc]
        exact hdot hname
    | _ => cases hu
  · obtain ⟨hstart, hglued⟩ := hy.opens_head hu c hc
    cases t with
    | word v =>
      have hv : v ∈ operatorWords ++ [.lParen, .dot] := of_decide_eq_true ht
      have hx := hx.of_word (by
        rcases List.mem_append.mp hv with hv | hv
        · exact List.mem_append_left _ hv
        · have hrest : ∀ v ∈ [Word.lParen, .dot], v ∈ [Word.lParen, .rParen, .dot] := by decide
          exact List.mem_append_right _ (hrest v hv))
      have hnot : c ∉ ['|', '=', '<', '>', '*'] := by
        intro hmem
        rcases hstart with h | h | h
        · exact not_mem_of_test h (by decide) hmem
        · exact not_mem_of_test h (by decide) hmem
        · have hno : (['|', '=', '<', '>', '*'].all fun k => !decide (k ∈ ['(', '-', '+', '"', '\x60'])) = true := by decide
          exact not_mem_of_test (decide_eq_true h) hno hmem
      rw [goesOn_operator hx, Bool.or_eq_false_iff, Bool.or_eq_false_iff, List.any_eq_false, Bool.and_eq_false_iff,
        Bool.and_eq_false_iff]
      refine ⟨⟨fun o ho hpre => ?_, ?_⟩, .inr ?_⟩
      · -- the second character of an operator
        obtain ⟨z, hz⟩ := List.isPrefixOf_iff_prefix.mp hpre
        have hmem : c ∈ o.1.tail := by
          rw [← hz]
          obtain ⟨d, x, rfl⟩ : ∃ d ds, x = d :: ds := List.exists_cons_of_ne_nil (operatorTexts_ne_nil _ hx)
          simp
        have hsecond := of_decide_eq_true (List.all_eq_true.mp (operatorTexts_second o ho) c hmem)
        exact hnot (List.mem_append_left ['*'] hsecond)
      · by_cases hminus : x = ['-']
        · obtain rfl : v = .minus := operatorTexts_minus _ hx hminus
          refine .inr ?_
          rw [Bool.or_eq_false_iff, beq_eq_false_iff_ne, ne_eq, ← Bool.not_eq_true]
          refine not_or.mp fun h => ?_
          rw [hglued h] at hg
          cases hg
        · exact .inl (beq_eq_false_iff_ne.mpr hminus)
      · refine beq_eq_false_iff_ne.mpr ?_
        rintro rfl
        exact hnot (by decide)
    | _ => cases ht

end

/-! ## The two texts -/

/-- The text without a blank. -/
def compact (w : List (Token × List Char)) : List Char := w.flatMap (·.2)

/-- Behind a token a blank, where it or the next one is an operator. -/
def spacedParts : List (Token × List Char) → List TextPart
  | [] => []
  | [p] => [{ token := p.1, text := p.2, blank := false }]
  | p :: q :: w => { token := p.1, text := p.2, blank := p.1.isOperator || q.1.isOperator } :: spacedParts (q :: w)

/-- The text with a blank on each side of every operator; in front of the first token the
blank is there already. -/
def spaced (w : List (Token × List Char)) : List Char := (spacedParts w).flatMap TextPart.chars

example : spaced [(.word .minus, ['-']), (.word .null, ['n'])] = ['-', ' ', 'n'] := by decide +kernel

def selectPart : TextPart := { token := .word .select, text := ['S', 'E', 'L', 'E', 'C', 'T'], blank := true }

theorem selectPart_chars : "SELECT ".toList = selectPart.text ++ [' '] := by decide

theorem selectPart_spelled : Spelled (.word .select) selectPart.text := by
  have hkeyword : keyword? selectPart.text = some .select := by decide +kernel
  have hident : Spelled (identToken selectPart.text) selectPart.text := .ident (by decide)
  rw [identToken, hkeyword] at hident
  exact hident

theorem Glued.isOperator {t u : Token} (h : t.isOperator = false) : Glued t u = false := by
  unfold Glued
  split
  · cases h
  · cases h
  · rfl

section
variable [Unmatched] {w : List (Token × List Char)}

theorem tokensOf_select {ps : List TextPart} (hs : ∀ p ∈ ps, Spelled p.token p.text) (hc : ps.IsChain TextPart.Before) :
    tokensOf ("SELECT ".toList ++ ps.flatMap TextPart.chars) = .word .select :: ps.map (·.token) := by
  have hchain : (selectPart :: ps).IsChain TextPart.Before := by
    cases ps with
    | nil => exact .singleton _
    | cons p ps => exact .cons_cons (.inl rfl) hc
  rw [selectPart_chars]
  exact tokensOf_parts (List.forall_mem_cons.mpr ⟨selectPart_spelled, hs⟩) hchain

omit [Unmatched] in
theorem spacedParts_token : (spacedParts w).map (·.token) = w.map (·.1) := by
  fun_induction spacedParts w with
  | case1 => rfl
  | case2 p => rfl
  | case3 p q w ih =>
    rw [List.map_cons, ih]
    rfl

omit [Unmatched] in
theorem spacedParts_spelled (hs : ∀ p ∈ w, Spelled p.1 p.2) : ∀ p ∈ spacedParts w, Spelled p.token p.text := by
  fun_induction spacedParts w with
  | case1 => exact nofun
  | case2 p => exact List.forall_mem_cons.mpr ⟨hs p List.mem_cons_self, nofun⟩
  | case3 p q w ih =>
    rw [List.forall_mem_cons] at hs
    exact List.forall_mem_cons.mpr ⟨hs.1, ih hs.2⟩

omit [Unmatched] in
theorem spacedParts_before (hs : ∀ p ∈ w, Spelled p.1 p.2) (hb : (w.map (·.1)).IsChain Beside) :
    (spacedParts w).IsChain TextPart.Before := by
  fun_induction spacedParts w with
  | case1 => exact .nil
  | case2 p => exact .singleton _
  | case3 p q w ih =>
    rw [List.forall_mem_cons] at hs
    rw [List.map_cons, List.map_cons, List.isChain_cons_cons] at hb
    have htail := ih hs.2 hb.2
    have hbefore : ∀ b, TextPart.Before { token := p.1, text := p.2, blank := p.1.isOperator || q.1.isOperator }
        { token := q.1, text := q.2, blank := b } := by
      intro b
      cases hop : p.1.isOperator with
      | true => exact .inl rfl
      | false => exact .inr (hb.1.apart (Glued.isOperator hop) hs.1 (hs.2 q List.mem_cons_self))
    cases w with
    | nil => exact .cons_cons (hbefore _) htail
    | cons r w => exact .cons_cons (hbefore _) htail

/-- The text with blanks has the tokens. -/
theorem tokensOf_spaced (hs : ∀ p ∈ w, Spelled p.1 p.2) (hb : (w.map (·.1)).IsChain Beside) :
    tokensOf ("SELECT ".toList ++ spaced w) = .word .select :: w.map (·.1) := by
  rw [spaced, tokensOf_select (spacedParts_spelled hs) (spacedParts_before hs hb), spacedParts_token]

/-- Without a blank, up to a comment, each sign in front of an integer is a part of it. -/
def merged : List Token → List Token
  | [] => []
  | .word .minus :: .word .minus :: _ => []
  | .word .minus :: .integerLit n :: w => .integerLit (-n) :: merged w
  | t :: w => t :: merged w

omit [Unmatched] in
theorem merged_cons {t u : Token} {v : List Token} (h : Glued t u = false) :
    merged (t :: u :: v) = t :: merged (u :: v) := by
  rw [merged]
  · rintro tail rfl hu
    rw [(List.cons.inj hu).1] at h
    cases h
  · rintro n tail rfl hu
    rw [(List.cons.inj hu).1] at h
    cases h

omit [Unmatched] in
theorem merged_singleton (t : Token) : merged [t] = [t] := by
  cases t with
  | word x => cases x <;> rfl
  | _ => rfl

omit [Unmatched] in
theorem compact_head {p : Token × List Char} (hs : Spelled p.1 p.2) :
    (compact (p :: w)).head? = p.2.head? := by
  obtain ⟨c, cs, hc, -⟩ := hs.head
  rw [compact, List.flatMap_cons, hc]
  rfl

omit [Unmatched] in
theorem spelled_minus {x : List Char} (h : Spelled (.word .minus) x) : x = ['-'] := by
  have htable : ∀ o ∈ operatorTexts, o.2 = .minus → o.1 = ['-'] := by decide
  exact htable _ (h.of_word (by decide)) rfl

omit [Unmatched] in
theorem spelled_integer {n : Int64} {x : List Char} (h : Spelled (.integerLit n) x) :
    x ≠ [] ∧ x.all Char.isDigit = true ∧ parseI64 (.ofList x) = some n := by
  generalize ht : Token.integerLit n = t at h
  cases h with
  | integer hne hd hn =>
    cases ht
    exact ⟨hne, hd, hn⟩
  | @ident x _ =>
    unfold identToken at ht
    split at ht <;> cases ht
  | operator | quotedIdent | backtickIdent => cases ht

omit [Unmatched] in
theorem Glued.sides {t u : Token} (h : Glued t u = true) :
    t = .word .minus ∧ (u = .word .minus ∨ ∃ n, u = .integerLit n) := by
  unfold Glued at h
  split at h
  · exact ⟨rfl, .inl rfl⟩
  · exact ⟨rfl, .inr ⟨_, rfl⟩⟩
  · cases h

/-- The text without a blank has the merged tokens, unless a comment in it comes to an
end. -/
theorem tokensOf_compact (hs : ∀ p ∈ w, Spelled p.1 p.2) (hb : (w.map (·.1)).IsChain Beside)
    (hn : Unglued (w.map (·.1)) ∨ '\n' ∉ compact w) : tokensOf (compact w) = merged (w.map (·.1)) := by
  induction hlen : w.length using Nat.strongRecOn generalizing w with
  | ind k ih =>
    cases w with
    | nil => rfl
    | cons p w =>
      rw [List.forall_mem_cons] at hs
      have hrest : ∀ {v : List (Token × List Char)}, v <:+ w → tokensOf (compact v) = merged (v.map (·.1)) := by
        intro v hv
        have hlt : v.length < k := by
          rw [← hlen, List.length_cons]
          exact Nat.lt_succ_of_le hv.length_le
        refine ih _ hlt (fun q hq => hs.2 q (hv.subset hq)) ?_ ?_ rfl
        · exact hb.suffix ((hv.map _).trans (List.suffix_cons _ _))
        · refine hn.imp (fun h => h.suffix ((hv.map _).trans (List.suffix_cons _ _))) fun h hmem => h ?_
          obtain ⟨u, rfl⟩ := hv
          rw [compact, List.flatMap_cons, List.flatMap_append]
          exact List.mem_append_right _ (List.mem_append_right _ hmem)
      cases w with
      | nil =>
        rw [List.map_cons, List.map_nil, merged_singleton]
        exact hs.1.tokensOf (r := []) fun c hc => by cases hc
      | cons q w =>
        rw [List.forall_mem_cons] at hs
        rw [List.map_cons, List.map_cons, List.isChain_cons_cons] at hb
        cases hg : Glued p.1 q.1 with
        | false =>
          have happart : Apart p.2 (compact (q :: w)) := by
            intro c hc
            rw [compact_head hs.2.1] at hc
            exact hb.1.apart hg hs.1 hs.2.1 c hc
          rw [List.map_cons, List.map_cons, merged_cons hg]
          exact (hs.1.tokensOf happart).trans (congrArg _ (hrest (List.suffix_refl _)))
        | true =>
          have hnewline := hn.resolve_left fun h => by
            have hno := (List.isChain_cons_cons.mp h).1
            rw [hg] at hno
            cases hno
          obtain ⟨t, x⟩ := p
          obtain ⟨u, y⟩ := q
          obtain ⟨rfl, rfl | ⟨n, rfl⟩⟩ := Glued.sides (show Glued t u = true from hg)
          · obtain rfl := spelled_minus hs.1
            obtain rfl := spelled_minus hs.2.1
            refine tokensOf_comment fun hmem => hnewline ?_
            exact List.mem_cons_of_mem _ (List.mem_cons_of_mem _ hmem)
          · obtain rfl := spelled_minus hs.1
            obtain ⟨hne, hd, hn⟩ := spelled_integer hs.2.1
            have happart : Apart y (compact w) := by
              cases w with
              | nil => exact nofun
              | cons r w =>
                intro c hc
                rw [compact_head (hs.2.2 r List.mem_cons_self)] at hc
                have hbeside := (List.isChain_cons_cons.mp hb.2).1
                exact hbeside.apart rfl hs.2.1 (hs.2.2 r List.mem_cons_self) c hc
            refine (tokensOf_negative hne hd hn happart).trans ?_
            rw [hrest (List.suffix_cons _ _)]
            rfl

theorem tokensOf_select_compact (hs : ∀ p ∈ w, Spelled p.1 p.2) :
    tokensOf ("SELECT ".toList ++ compact w) = .word .select :: tokensOf (compact w) := by
  rw [selectPart_chars, List.append_assoc, List.singleton_append, selectPart_spelled.tokensOf selectPart_spelled.apart_blank]
  refine congrArg _ (tokensOf_blank ?_)
  intro c hc
  cases w with
  | nil => cases hc
  | cons p w =>
    obtain ⟨d, ds, hd, hblank⟩ := (hs p List.mem_cons_self).head
    rw [compact_head (hs p List.mem_cons_self), hd] at hc
    rw [← Option.some.inj hc]
    exact hblank

end

/-! ## Queries of one expression -/

/-- `SELECT e`. -/
def Select.ofExpr (e : Expr) : Select where
  distinct := false
  columns := [{ expr := e, «alias» := none }]
  «from» := none
  whereClause := none
  groupBy := []
  having := none
  orderBy := []
  limit := none
  offset := none

namespace Parser
section
variable {s : Parser} {α : Type} {m : ParserM α} {v : Word}

theorem optional_miss (h : s.left.head? ≠ some (.word v)) : optional v m s = .ok none s := branch_miss h

theorem parseListBy_miss {n : Nat} (h : s.left.head? ≠ some (.word v)) : parseListBy v m n s = .ok [] s := branch_miss h

variable [DebugText]

/-- A query of one expression that ends with the tokens. -/
theorem parseSelect_ofExpr {n : Nat} (h : Written 0 e w) (hs : s.left = w) (hn : w.length < n) :
    parseSelect (parseExpr n) n s = .ok (.ofExpr e) (s.skip w.length) := by
  obtain ⟨n, rfl⟩ : ∃ k, n = k + 1 := ⟨n - 1, by omega⟩
  have hleft : s.left = w ++ [] := by rw [hs, List.append_nil]
  have hexpr : parseExpr (n + 1) s = .ok e (s.skip w.length) :=
    (h.takes (Nat.zero_le 7)).1 (by omega) (by omega) hleft Stops.nil
  have hmiss : ∀ {v : Word}, (s.skip w.length).left.head? ≠ some (.word v) := by
    intro v
    rw [left_behind hleft]
    exact nofun
  have hstart : s.left.head? ≠ some (.word .star) ∧ s.left.head? ≠ some (.word .distinct) := by
    rw [hs]
    constructor <;> exact h.begins.not_head (by decide) (fun h => absurd h (by decide)) fun h => absurd h (by decide)
  have hcolumn : parseResultColumn (parseExpr (n + 1)) s = .ok { expr := e, «alias» := none } (s.skip w.length) := by
    rw [parseResultColumn, bind_ok hexpr, bind_ok (optional_miss hmiss)]
    rfl
  have hcolumns : parseResultColumns (parseExpr (n + 1)) (n + 1) s =
      .ok [{ expr := e, «alias» := none }] (s.skip w.length) := by
    rw [parseResultColumns, branch_miss hstart.1, commaList,
      bind_ok hcolumn, branch_miss hmiss]
    rfl
  have hdistinct : matchToken .distinct s = .ok false s := matchToken_miss hstart.2
  have hoffset : parseOffset (parseExpr (n + 1)) (s.skip w.length) = .ok none (s.skip w.length) := by
    rw [parseOffset, bind_ok (matchToken_miss hmiss)]
    simp only [Bool.false_eq_true, if_false]
    rw [bind_ok (matchToken_miss hmiss)]
    rfl
  rw [parseSelect, bind_ok hdistinct, bind_ok hcolumns, bind_ok (optional_miss hmiss), bind_ok (optional_miss hmiss),
    bind_ok (parseListBy_miss hmiss), bind_ok (optional_miss hmiss), bind_ok (parseListBy_miss hmiss),
    bind_ok (optional_miss hmiss), bind_ok hoffset]
  rfl

end
end Parser

section
variable [DebugText] [Unmatched]

/-- `parse_one` takes the whole of `SELECT` and the text, and the text is `e`. -/
def ParsedTo (text : List Char) (e : Expr) : Prop :=
  let items := lexer ("SELECT ".toList ++ text)
  let tokens := tokenize items
  parseOne items = .ok (.select (.ofExpr e)) ∧ ∃ s, s.isAtEnd = true ∧
    Parser.parseStatement (tokens.length + 1) (Parser.new tokens) = .ok (.select (.ofExpr e)) s

omit [Unmatched] in
open Sqllite.Parser in
/-- The tokens of a query of a written expression. -/
theorem statement_ofExpr {tokens : List SpannedToken} (h : Written 0 e w)
    (ht : tokens.map (·.token) = .word .select :: w) : ∃ s, s.isAtEnd = true ∧
      parseStatement (tokens.length + 1) (new tokens) = .ok (.select (.ofExpr e)) s := by
  have htokens : (new tokens).left = .word .select :: w := ht
  have hlen : tokens.length = w.length + 1 := by rw [← List.length_map, ht, List.length_cons]
  have hrest : ((new tokens).skip 1).left = w := left_behind (w := [_]) htokens
  have hselect := parseSelect_ofExpr h hrest (n := tokens.length + 1) (by omega)
  refine ⟨((new tokens).skip 1).skip w.length, ?_, ?_⟩
  · rw [skip_skip, Parser.isAtEnd]
    refine decide_eq_true ?_
    show tokens.length ≤ 0 + (1 + w.length)
    omega
  · rw [parseStatement, branch_hit htokens]
    exact bind_ok hselect _

/-- A text with the tokens of a written expression. -/
theorem parsedTo_of_tokens {text : List Char} (h : Written 0 e w)
    (ht : tokensOf ("SELECT ".toList ++ text) = .word .select :: w) : ParsedTo text e := by
  unfold ParsedTo
  unfold tokensOf at ht
  generalize lexer ("SELECT ".toList ++ text) = items at ht ⊢
  obtain ⟨s, hend, hrun⟩ := statement_ofExpr h ht
  exact ⟨outcome_ok hrun, s, hend, hrun⟩

end

/-! ## Signs of the two texts -/

theorem minuses_append (v w : List Token) : minuses (v ++ w) = minuses v + minuses w := List.countP_append

theorem minuses_cons (t : Token) (w : List Token) :
    minuses (t :: w) = minuses w + if t.kind = .word .minus then 1 else 0 := by
  rw [minuses, List.countP_cons, minuses]
  simp only [decide_eq_true_eq]

theorem Token.Names.kind_ne {t : Token} {name : String} (h : t.Names name) : t.kind ≠ .word .minus := by
  rcases h with rfl | rfl | rfl <;> exact nofun

/-- A written expression has a `-` for each subtraction and each sign. -/
theorem Written.minuses_eq (h : Written l e w) : e.minuses = minuses w := by
  induction h with
  | ident ht => rw [minuses_cons, if_neg ht.kind_ne]; rfl
  | qualifiedIdent ht ht' =>
    rw [minuses_cons, minuses_cons, minuses_cons, if_neg ht.kind_ne, if_neg ht'.kind_ne]
    rfl
  | integer n => rfl
  | paren _ ih =>
    rw [inParens, minuses_cons, minuses_append, ih]
    rfl
  | minus _ _ ih =>
    rw [minuses_cons, Expr.minuses, ih]
    rfl
  | plus _ _ ih =>
    rw [minuses_cons, ih]
    rfl
  | binaryOp ho _ _ _ iha ihb =>
    rw [Expr.minuses_binaryOp, minuses_append, minuses_cons, iha, ihb]
    cases ho <;> rfl

/-- The merged tokens have fewer `-`, unless nothing is merged. -/
theorem minuses_merged (w : List Token) : minuses (merged w) ≤ minuses w ∧
    (¬ Unglued w → minuses (merged w) < minuses w) := by
  fun_induction merged w with
  | case1 => exact ⟨Nat.le_refl _, fun h => absurd .nil h⟩
  | case2 w =>
    rw [minuses_cons, minuses_cons]
    exact ⟨Nat.zero_le _, fun _ => Nat.zero_lt_succ _⟩
  | case3 n w ih =>
    rw [minuses_cons, minuses_cons, minuses_cons]
    exact ⟨Nat.le_succ_of_le ih.1, fun _ => Nat.lt_succ_of_le ih.1⟩
  | case4 t w hcomment hinteger ih =>
    rw [minuses_cons, minuses_cons]
    refine ⟨Nat.add_le_add_right ih.1 _, fun h => Nat.add_lt_add_right (ih.2 fun hw => h ?_) _⟩
    cases w with
    | nil => exact .singleton _
    | cons u w =>
      refine .cons_cons ?_ hw
      cases hg : Glued t u with
      | false => rfl
      | true =>
        obtain ⟨rfl, rfl | ⟨n, rfl⟩⟩ := Glued.sides hg
        · exact (hcomment w rfl rfl).elim
        · exact (hinteger n w rfl rfl).elim

theorem merged_unglued {w : List Token} (h : Unglued w) : merged w = w := by
  induction w with
  | nil => rfl
  | cons t w ih =>
    cases w with
    | nil => exact merged_singleton t
    | cons u w =>
      have htail := List.isChain_cons_cons.mp h
      rw [merged_cons htail.1, ih htail.2]

section
variable [DebugText] [Unmatched]

/-- The text without blanks and the text with blanks are parsed to one expression. -/
def Alike (w : List (Token × List Char)) : Prop := ∃ e, ParsedTo (compact w) e ∧ ParsedTo (spaced w) e

theorem ParsedTo.unique {text : List Char} {e e' : Expr} (h : ParsedTo text e) (h' : ParsedTo text e') : e = e' := by
  have heq := h.1.symm.trans h'.1
  injection heq with heq
  injection heq with heq
  injection heq with _ heq
  injection heq with heq
  injection heq

/-- What is parsed is paid for with the `-` of the text. -/
theorem ParsedTo.minuses_le {text : List Char} (h : ParsedTo text e) :
    e.minuses ≤ minuses (tokensOf ("SELECT ".toList ++ text)) := by
  unfold ParsedTo at h
  unfold tokensOf
  generalize lexer ("SELECT ".toList ++ text) = items at h ⊢
  obtain ⟨-, s, -, hrun⟩ := h
  have hpays := Parser.parseStatement_pays (Nat.zero_le _) hrun
  have hsum : (Statement.select (.ofExpr e)).minuses = e.minuses := Nat.add_zero _
  rw [← hsum]
  exact hpays

/-- The two texts of an expression are parsed to the same expression where no `-` stands in
front of an integer or of another `-`; if no name has a line break in it, only there. -/
theorem compact_spaced_iff (e : Expr) (w : List (Token × List Char)) (hw : Written 0 e (w.map (·.1)))
    (hs : ∀ p ∈ w, Spelled p.1 p.2) :
    (Unglued (w.map (·.1)) → Alike w) ∧ ('\n' ∉ compact w → (Alike w ↔ Unglued (w.map (·.1)))) := by
  obtain ⟨-, -, hbeside, -⟩ := hw.beside
  have hspaced : ParsedTo (spaced w) e := parsedTo_of_tokens hw (tokensOf_spaced hs hbeside)
  have hcompact : Unglued (w.map (·.1)) ∨ '\n' ∉ compact w →
      tokensOf ("SELECT ".toList ++ compact w) = .word .select :: merged (w.map (·.1)) := by
    intro h
    rw [tokensOf_select_compact hs, tokensOf_compact hs hbeside h]
  have hsame : Unglued (w.map (·.1)) → Alike w := by
    intro h
    refine ⟨e, parsedTo_of_tokens hw ?_, hspaced⟩
    rw [hcompact (.inl h), merged_unglued h]
  refine ⟨hsame, fun hline => ⟨?_, hsame⟩⟩
  rintro ⟨e', hparsed, hparsed'⟩
  obtain rfl := hspaced.unique hparsed'
  -- were two tokens glued, there were not enough `-` for the expression
  by_contra hglued
  have hle := hparsed.minuses_le
  rw [hcompact (.inr hline), minuses_cons, if_neg nofun, hw.minuses_eq] at hle
  have hlt := (minuses_merged _).2 hglued
  omega

end

/-- `a-b<=-c`. -/
theorem compact_spaced_signs : let _ : DebugText := ⟨fun _ => ""⟩
    let _ : Unmatched := .one
    Alike [(.ident "a", ['a']), (.word .minus, ['-']), (.ident "b", ['b']), (.word .le, ['<', '=']),
      (.word .minus, ['-']), (.ident "c", ['c'])] := by
  intro _ _
  have hident : ∀ c, isIdentText [c] = true → keyword? [c] = none → Spelled (.ident (.ofList [c])) [c] := by
    intro c hc hk
    have h := Spelled.ident hc
    rw [identToken, hk] at h
    exact h
  have hw : Written 0 (.binaryOp .le (.binaryOp .sub (.ident "a") (.ident "b")) (.unaryOp .minus (.ident "c")))
      ([.ident "a", .word .minus, .ident "b"] ++ .word .le :: [.word .minus, .ident "c"]) :=
    .binaryOp .le (by decide) (.binaryOp .sub (by decide) (.ident (.inl rfl)) (.ident (.inl rfl)))
      (.minus (by decide) (.ident (.inl rfl)))
  refine (compact_spaced_iff _ _ hw ?_).1 ?_
  · simp only [List.forall_mem_cons]
    exact ⟨hident 'a' rfl (by decide), .operator (by decide), hident 'b' rfl (by decide), .operator (by decide),
      .operator (by decide), hident 'c' rfl (by decide), nofun⟩
  · simp [Unglued, Glued]

/-- Whether `parse_one` takes the whole of `SELECT` and a text. -/
def takesWhole [DebugText] [Unmatched] (text : List Char) : Bool :=
  let tokens := tokenize (lexer ("SELECT ".toList ++ text))
  match Parser.parseStatement (tokens.length + 1) (Parser.new tokens) with
  | .ok _ s => s.isAtEnd
  | .error _ _ => false

theorem ParsedTo.takesWhole [DebugText] [Unmatched] {text : List Char} (h : ParsedTo text e) : takesWhole text = true := by
  obtain ⟨-, s, hend, hrun⟩ := h
  unfold Sqllite.takesWhole
  dsimp only
  rw [hrun]
  exact hend

/-- `a-1` and `5-1` are not subtractions: both are an operand with an integer behind it. -/
theorem compact_minus_one : let _ : DebugText := ⟨fun _ => ""⟩
    let _ : Unmatched := .one
    ¬ Alike [(.ident "a", ['a']), (.word .minus, ['-']), (.integerLit 1, ['1'])] ∧
      ¬ Alike [(.integerLit 5, ['5']), (.word .minus, ['-']), (.integerLit 1, ['1'])] := by
  intro _ _
  have hident : takesWhole ['a', '-', '1'] = false := by decide
  have hinteger : takesWhole ['5', '-', '1'] = false := by decide
  constructor
  · rintro ⟨e, h, -⟩
    have hwhole : takesWhole ['a', '-', '1'] = true := h.takesWhole
    rw [hident] at hwhole
    cases hwhole
  · rintro ⟨e, h, -⟩
    have hwhole : takesWhole ['5', '-', '1'] = true := h.takesWhole
    rw [hinteger] at hwhole
    cases hwhole

end Sqllite
