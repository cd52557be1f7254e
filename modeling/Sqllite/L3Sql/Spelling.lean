import Mathlib.Data.List.Chain
import Sqllite.L3Sql.TokenRules

/-!
# Texts of tokens

`Spelled t u`: the token `t` has the text `u`. A text of a token is taken whole unless it
goes on with what stands behind it.

* `Spelled.taken`: the longest match at a text of a token is the text, and it is read as
  the token.
-/
namespace Sqllite
open Lib

/-! ## Texts -/

/-- An identifier or a keyword. -/
def isIdentText : List Char → Bool
  | c :: cs => identStart c && cs.all identChar
  | [] => false

/-- The keyword with a text. -/
def keyword? (u : List Char) : Option Word :=
  (keywordTexts.find? fun k => k.1.length == u.length && beginsWith anyCase k.1 u).map (·.2)

/-- The token of an identifier or a keyword. -/
def identToken (u : List Char) : Token :=
  match keyword? u with
  | some w => .word w
  | none => .ident (.ofList u)

/-- `([^q\\]|\\.|qq)*`. -/
inductive QuotedText (q : Char) : List Char → Prop
  | nil : QuotedText q []
  | plain {c u} : c ≠ q → c ≠ '\\' → QuotedText q u → QuotedText q (c :: u)
  | escaped {c u} : c ≠ '\n' → QuotedText q u → QuotedText q ('\\' :: c :: u)
  | doubled {u} : QuotedText q u → QuotedText q (q :: q :: u)

/-- The texts of keywords, operators, names and integers. -/
inductive Spelled : Token → List Char → Prop
  | operator {u w} : (u, w) ∈ operatorTexts → Spelled (.word w) u
  | ident {u} : isIdentText u = true → Spelled (identToken u) u
  | integer {u n} : u ≠ [] → u.all Char.isDigit = true → parseI64 (.ofList u) = some n →
      Spelled (.integerLit n) u
  | quotedIdent {u} : QuotedText '"' u → Spelled (.quotedIdent (.ofList (undouble '"' u))) ('"' :: (u ++ ['"']))
  | backtickIdent {u} : QuotedText '\x60' u →
      Spelled (.backtickIdent (.ofList (undouble '\x60' u))) ('\x60' :: (u ++ ['\x60']))

/-- A character that goes on with a text of a token, or makes another match of it. -/
def goesOn (u : List Char) (c : Char) : Bool :=
  match u with
  | [] => false
  | d :: _ =>
    if identStart d then identChar c || c ∈ ['\'', 'ſ', '\u212a']
    else if d.isDigit then c.isDigit || c == '.'
    else if d = '"' ∨ d = '\x60' then c == d
    else operatorTexts.any (fun o => (u ++ [c]).isPrefixOf o.1) ||
      (u == ['-'] && (c == '-' || c.isDigit)) || (u == ['/'] && c == '*')

/-- The text `u` does not go on with `r`. -/
def Apart (u r : List Char) : Prop := ∀ c, r.head? = some c → goesOn u c = false

/-! ## Characters -/

variable {c : Char} {u r cs : List Char}

theorem ne_of_test {p : Char → Bool} {k : Char} (h : p c = true) (hk : p k = false) : c ≠ k := by
  rintro rfl
  rw [h] at hk
  cases hk

theorem not_mem_of_test {p : Char → Bool} {l : List Char} (h : p c = true) (hl : (l.all fun k => !p k) = true) :
    c ∉ l := by
  intro hmem
  have hk := List.all_eq_true.mp hl c hmem
  rw [h] at hk
  cases hk

theorem isDigit_iff : c.isDigit = true ↔ 48 ≤ c.toNat ∧ c.toNat ≤ 57 := by
  simp only [Char.isDigit, Bool.and_eq_true, decide_eq_true_eq, ge_iff_le, UInt32.le_iff_toNat_le]
  exact Iff.rfl

theorem isAlpha_iff : c.isAlpha = true ↔
    (65 ≤ c.toNat ∧ c.toNat ≤ 90) ∨ (97 ≤ c.toNat ∧ c.toNat ≤ 122) := by
  unfold Char.isAlpha Char.isUpper Char.isLower
  simp only [Bool.or_eq_true, Bool.and_eq_true, decide_eq_true_eq, ge_iff_le, UInt32.le_iff_toNat_le]
  exact Iff.rfl

theorem identStart_not_digit (h : identStart c = true) : c.isDigit = false := by
  rw [Bool.eq_false_iff, ne_eq, isDigit_iff]
  rw [identStart, Bool.or_eq_true, isAlpha_iff, beq_iff_eq] at h
  rcases h with h | rfl
  · omega
  · decide

theorem identStart_identChar (h : identStart c = true) : identChar c = true := by
  rw [identStart, Bool.or_eq_true] at h
  rw [identChar, Bool.or_eq_true, Char.isAlphanum, Bool.or_eq_true]
  rcases h with h | h
  · exact .inl (.inl h)
  · exact .inr h

/-- What stands for a letter of a keyword is a letter, or one of the two that fold to one. -/
theorem anyCase_letter {k : Char} (hk : k.isUpper = true) (h : anyCase k c = true) :
    c.isAlpha = true ∨ c = 'ſ' ∨ c = '\u212a' := by
  simp only [anyCase, Bool.or_eq_true, Bool.and_eq_true, beq_iff_eq] at h
  rcases h with (h | ⟨_, h⟩) | ⟨_, h⟩
  · refine .inl ?_
    unfold Char.toUpper at h
    split at h
    · rename_i hl
      rw [isAlpha_iff]
      exact .inr hl
    · unfold Char.isAlpha
      rw [h, hk, Bool.true_or]
  · exact .inr (.inl h)
  · exact .inr (.inr h)

/-! ## Patterns that do not match -/

theorem runScan_none {p : Char → Bool} (h : ∀ c, cs.head? = some c → p c = false) : runScan p cs = none := by
  cases cs with
  | nil => rfl
  | cons c cs => rw [runScan, List.takeWhile_cons_of_neg (by rw [h c rfl]; exact nofun)]; rfl

/-- A run takes what it can. -/
theorem takeWhile_parted {p : Char → Bool} (hu : u.all p = true) (hr : ∀ c, r.head? = some c → p c = false) :
    (u ++ r).takeWhile p = u := by
  rw [List.takeWhile_append_of_pos (List.all_eq_true.mp hu)]
  cases r with
  | nil => rw [List.takeWhile_nil, List.append_nil]
  | cons c r => rw [List.takeWhile_cons_of_neg (by rw [hr c rfl]; exact nofun), List.append_nil]

theorem runScan_parted {p : Char → Bool} (hne : u ≠ []) (hu : u.all p = true)
    (hr : ∀ c, r.head? = some c → p c = false) : runScan p (u ++ r) = some u.length := by
  rw [runScan, takeWhile_parted hu hr]
  cases u with
  | nil => exact absurd rfl hne
  | cons c u => rfl

theorem integerScan_none (hd : c.isDigit = false) (hm : c = '-' → ∀ d, cs.head? = some d → d.isDigit = false) :
    integerScan (c :: cs) = none := by
  by_cases hc : c = '-'
  · subst hc
    rw [integerScan]
    exact congrArg _ (runScan_none (hm rfl))
  · have hk : optionalScan (· == '-') (c :: cs) = 0 := by
      rw [optionalScan, if_neg (by simpa using hc)]
    rw [integerScan, hk, List.drop_zero, runScan_none]
    · rfl
    · intro d hd'
      rw [← Option.some.inj hd']
      exact hd

theorem realScan_none (h : integerScan cs = none) : realScan cs = none := by
  rw [realScan, h]
  rfl

theorem quotedScan_none {q : Char} (h : c ≠ q) : quotedScan q (c :: cs) = none := if_neg h

theorem paramScan_none {q : Char} (h : c ≠ q) : paramScan q (c :: cs) = none := if_neg h

theorem identScan_none (h : identStart c = false) : identScan (c :: cs) = none := by
  rw [identScan, h]
  rfl

theorem textScan_none {k : Char} (h : c ≠ k) : textScan (· == ·) [k] (c :: cs) = none := by
  refine if_neg fun hb => ?_
  rw [beginsWith, Bool.and_eq_true, beq_iff_eq] at hb
  exact h hb.1.symm

theorem blobScan_none (h : c ≠ 'x' ∧ c ≠ 'X' ∨ cs.head? ≠ some '\'') : blobScan (c :: cs) = none := by
  unfold blobScan
  split
  · rename_i heq
    cases heq
    rcases h with h | h
    · rw [if_neg (not_or.mpr h)]
    · exact absurd rfl h
  · rfl

theorem lexRule_none {scan : List Char → Option Nat} {read : List Char → Lexeme} (h : scan cs = none) :
    lexRule scan read cs = none := by rw [lexRule, h]; rfl

theorem lexRule_some {scan : List Char → Option Nat} {read : List Char → Lexeme} (h : scan (u ++ r) = some u.length) :
    lexRule scan read (u ++ r) = some (u.length, read u) := by
  rw [lexRule, h, Option.map_some, List.take_left' rfl]

/-- The matches of the rules at the front of a text. -/
def matched (rules : List (Munch.Rule Char Lexeme)) (cs : List Char) : List (Nat × Lexeme) :=
  rules.filterMap fun rule => rule cs

theorem taken_eq : Munch.taken tokenRules cs = Munch.longest (matched skipRules cs ++
    (matched (keywordTexts.map (wordRule anyCase)) cs ++
      (matched (operatorTexts.map (wordRule (· == ·))) cs ++ matched valueRules cs))) := by
  simp only [Munch.taken, tokenRules, matched, List.filterMap_append, List.append_assoc]

theorem matched_skip_none (hb : isBlank c = false) (hm : c ≠ '-' ∨ cs.head? ≠ some '-')
    (hs : c ≠ '/' ∨ cs.head? ≠ some '*') : matched skipRules (c :: cs) = [] := by
  have hblank : runScan isBlank (c :: cs) = none := runScan_none fun d hd => Option.some.inj hd ▸ hb
  have hline : lineCommentScan (c :: cs) = none := by
    unfold lineCommentScan
    split
    · rename_i heq
      cases heq
      simp at hm
    · rfl
  have hblock : blockCommentScan (c :: cs) = none := by
    unfold blockCommentScan
    split
    · rename_i heq
      cases heq
      simp at hs
    · rfl
  simp [matched, skipRules, lexRule_none hblank, lexRule_none hline, lexRule_none hblock]

/-- The characters other than letters, digits and signs that begin a value. -/
def valueMarks : List Char := ['\'', '"', '\x60', '?', ':', '@', '$']

/-- Behind no mark of a value there are four values. -/
theorem matched_values_unmarked (hv : c ∉ valueMarks) : matched valueRules (c :: cs) =
    matched [integerRule, realRule, blobRule, identRule] (c :: cs) := by
  have hne : ∀ k ∈ valueMarks, c ≠ k := by
    rintro k hk rfl
    exact hv hk
  simp only [valueMarks, List.forall_mem_cons] at hne
  obtain ⟨hquote, hdouble, htick, hbind, hcolon, hat, hdollar, -⟩ := hne
  simp only [matched, valueRules, List.filterMap_cons, List.filterMap_nil, stringRule, quotedRule, bindRule, paramRule,
    lexRule_none (quotedScan_none hquote), lexRule_none (quotedScan_none hdouble), lexRule_none (quotedScan_none htick),
    lexRule_none (textScan_none hbind), lexRule_none (paramScan_none hcolon), lexRule_none (paramScan_none hat),
    lexRule_none (paramScan_none hdollar)]

theorem keywordTexts_upper : ∀ k ∈ keywordTexts, k.1 ≠ [] ∧ k.1.all Char.isUpper = true := by decide

theorem mem_matched_words {same : Char → Char → Bool} {words : List (List Char × Word)} {x : Nat × Lexeme} :
    x ∈ matched (words.map (wordRule same)) cs ↔
      ∃ k ∈ words, beginsWith same k.1 cs = true ∧ x = (k.1.length, .token (.word k.2)) := by
  rw [matched, List.mem_filterMap]
  constructor
  · rintro ⟨rule, hrule, hx⟩
    obtain ⟨k, hk, rfl⟩ := List.mem_map.mp hrule
    rw [wordRule, lexRule, textScan] at hx
    split at hx
    · rename_i hb
      exact ⟨k, hk, hb, (Option.some.inj hx).symm⟩
    · cases hx
  · rintro ⟨k, hk, hb, rfl⟩
    refine ⟨_, List.mem_map.mpr ⟨k, hk, rfl⟩, ?_⟩
    rw [wordRule, lexRule, textScan, if_pos hb]
    rfl

theorem matched_keywords_none (ha : c.isAlpha = false) (hs : c ≠ 'ſ') (hk : c ≠ '\u212a') :
    matched (keywordTexts.map (wordRule anyCase)) (c :: cs) = [] := by
  rw [List.eq_nil_iff_forall_not_mem]
  intro x hx
  obtain ⟨⟨k, w⟩, hmem, hb, -⟩ := mem_matched_words.mp hx
  obtain ⟨hne, hup⟩ := keywordTexts_upper _ hmem
  cases k with
  | nil => exact hne rfl
  | cons a ks =>
    rw [beginsWith, Bool.and_eq_true] at hb
    have ha' := List.all_eq_true.mp hup a List.mem_cons_self
    rcases anyCase_letter ha' hb.1 with h | h | h
    · rw [ha] at h
      cases h
    · exact hs h
    · exact hk h

theorem operatorTexts_ne_nil : ∀ o ∈ operatorTexts, o.1 ≠ [] := by decide

/-- The first characters of operators. -/
def operatorChars : List Char := operatorTexts.filterMap (·.1.head?)

theorem matched_operators_none (h : c ∉ operatorChars) :
    matched (operatorTexts.map (wordRule (· == ·))) (c :: cs) = [] := by
  rw [List.eq_nil_iff_forall_not_mem]
  intro x hx
  obtain ⟨⟨k, w⟩, hmem, hb, -⟩ := mem_matched_words.mp hx
  cases k with
  | nil => exact operatorTexts_ne_nil _ hmem rfl
  | cons a ks =>
    rw [beginsWith, Bool.and_eq_true] at hb
    rw [beq_iff_eq.mp hb.1] at hmem
    exact h (List.mem_filterMap.mpr ⟨_, hmem, rfl⟩)

/-! ## Identifiers and keywords -/

theorem beginsWith_append {same : Char → Char → Bool} {k : List Char} (h : beginsWith same k (u ++ r) = true) :
    (k.length ≤ u.length ∧ beginsWith same k u = true) ∨
      u.length < k.length ∧ ∃ a ∈ k, ∃ c, r.head? = some c ∧ same a c = true := by
  induction k generalizing u with
  | nil => exact .inl ⟨Nat.zero_le _, by rw [beginsWith]⟩
  | cons a k ih =>
    cases u with
    | nil =>
      refine .inr ⟨Nat.zero_lt_succ _, a, List.mem_cons_self, ?_⟩
      cases r with
      | nil => cases h
      | cons c r =>
        rw [List.nil_append, beginsWith, Bool.and_eq_true] at h
        exact ⟨c, rfl, h.1⟩
    | cons d u =>
      rw [List.cons_append, beginsWith, Bool.and_eq_true] at h
      rw [beginsWith, Bool.and_eq_true, List.length_cons, List.length_cons]
      rcases ih h.2 with ⟨hle, hb⟩ | ⟨hlt, b, hb, hc⟩
      · exact .inl ⟨Nat.succ_le_succ hle, h.1, hb⟩
      · exact .inr ⟨Nat.succ_lt_succ hlt, b, List.mem_cons_of_mem _ hb, hc⟩

theorem beginsWith_extend {same : Char → Char → Bool} {k : List Char} (h : beginsWith same k u = true) :
    beginsWith same k (u ++ r) = true := by
  induction k generalizing u with
  | nil => rw [beginsWith]
  | cons a k ih =>
    cases u with
    | nil => cases h
    | cons c u =>
      rw [beginsWith, Bool.and_eq_true] at h
      rw [List.cons_append, beginsWith, Bool.and_eq_true]
      exact ⟨h.1, ih h.2⟩

theorem goesOn_ident (h : isIdentText u = true) :
    goesOn u c = (identChar c || decide (c ∈ ['\'', 'ſ', '\u212a'])) := by
  cases u with
  | nil => cases h
  | cons d u =>
    rw [isIdentText, Bool.and_eq_true] at h
    rw [goesOn]
    exact if_pos h.1

/-- A keyword at the front of an identifier is not longer than it. -/
theorem keyword_within {k : List Char × Word} (hk : k ∈ keywordTexts) (hu : isIdentText u = true)
    (hr : Apart u r) (hb : beginsWith anyCase k.1 (u ++ r) = true) :
    k.1.length ≤ u.length ∧ beginsWith anyCase k.1 u = true := by
  rcases beginsWith_append hb with h | ⟨-, a, ha, c, hc, hac⟩
  · exact h
  · have hgo := hr c hc
    have hup := List.all_eq_true.mp (keywordTexts_upper k hk).2 a ha
    rw [goesOn_ident hu, Bool.or_eq_false_iff, decide_eq_false_iff_not] at hgo
    exfalso
    rcases anyCase_letter hup hac with h | h | h
    · rw [identChar, Char.isAlphanum, h] at hgo
      cases hgo.1
    · exact hgo.2 (by rw [h]; decide)
    · exact hgo.2 (by rw [h]; decide)

theorem matched_values_ident (hu : isIdentText u = true) (hr : Apart u r) :
    matched valueRules (u ++ r) = [(u.length, .token (.ident (.ofList u)))] := by
  cases u with
  | nil => cases hu
  | cons c cs =>
    have hident := hu
    rw [isIdentText, Bool.and_eq_true] at hu
    have hrun : identScan (c :: cs ++ r) = some (c :: cs).length := by
      have hchars : ∀ d, r.head? = some d → identChar d = false := by
        intro d hd
        have hgo := hr d hd
        rw [goesOn_ident hident, Bool.or_eq_false_iff] at hgo
        exact hgo.1
      rw [List.cons_append, identScan, if_pos hu.1, takeWhile_parted hu.2 hchars]
      rfl
    have hquote : (cs ++ r).head? ≠ some '\'' := by
      cases cs with
      | nil =>
        intro h
        have hgo := hr '\'' h
        rw [goesOn_ident hident] at hgo
        cases hgo
      | cons d cs =>
        intro h
        rw [List.all_cons, Bool.and_eq_true] at hu
        rw [Option.some.inj h] at hu
        cases hu.2.1
    have hinteger : integerScan (c :: (cs ++ r)) = none :=
      integerScan_none (identStart_not_digit hu.1) fun hc => absurd hc (ne_of_test hu.1 (by decide))
    have hmarks : c ∉ valueMarks := not_mem_of_test hu.1 (by decide)
    have hident : identRule (c :: (cs ++ r)) = _ := lexRule_some hrun
    have hblob : blobRule (c :: (cs ++ r)) = none := lexRule_none (blobScan_none (.inr hquote))
    rw [List.cons_append, matched_values_unmarked hmarks]
    simp only [matched, List.filterMap_cons, List.filterMap_nil, hident, hblob, integerRule, realRule,
      lexRule_none hinteger, lexRule_none (realScan_none hinteger)]

/-- At an identifier or a keyword, which of the two it is. -/
theorem taken_ident (hu : isIdentText u = true) (hr : Apart u r) :
    Munch.taken tokenRules (u ++ r) = some (u.length, .token (identToken u)) := by
  obtain ⟨c, cs, rfl⟩ : ∃ c cs, u = c :: cs := by
    cases u with
    | nil => cases hu
    | cons c cs => exact ⟨c, cs, rfl⟩
  have hc : identStart c = true := by
    rw [isIdentText, Bool.and_eq_true] at hu
    exact hu.1
  have hskip : matched skipRules (c :: cs ++ r) = [] := by
    have hblank : isBlank c = false := decide_eq_false (not_mem_of_test hc (by decide))
    exact matched_skip_none hblank (.inl (ne_of_test hc (by decide))) (.inl (ne_of_test hc (by decide)))
  have hops : matched (operatorTexts.map (wordRule (· == ·))) (c :: cs ++ r) = [] :=
    matched_operators_none (not_mem_of_test hc (by decide))
  rw [taken_eq, hskip, hops, matched_values_ident hu hr, List.nil_append, List.nil_append]
  generalize c :: cs = u at hu hr
  have hle : ∀ k ∈ keywordTexts, beginsWith anyCase k.1 (u ++ r) = true →
      k.1.length ≤ u.length ∧ beginsWith anyCase k.1 u = true := fun k hk hb => keyword_within hk hu hr hb
  unfold identToken keyword?
  cases hfind : keywordTexts.find? (fun k => k.1.length == u.length && beginsWith anyCase k.1 u) with
  | none =>
    refine Munch.longest_of_lt (List.mem_append_right _ List.mem_cons_self) fun y hy => ?_
    rcases List.mem_append.mp hy with hy | hy
    · obtain ⟨k, hk, hb, rfl⟩ := mem_matched_words.mp hy
      obtain ⟨hlen, hb⟩ := hle k hk hb
      have hnot := List.find?_eq_none.mp hfind k hk
      rw [hb, Bool.and_true, beq_iff_eq] at hnot
      exact .inr (Nat.lt_of_le_of_ne hlen hnot)
    · exact .inl (List.mem_singleton.mp hy)
  | some k =>
    obtain ⟨hkey, as, bs, hsplit, has⟩ := List.find?_eq_some_iff_append.mp hfind
    rw [Bool.and_eq_true, beq_iff_eq] at hkey
    have hk : wordRule anyCase k (u ++ r) = some (u.length, .token (.word k.2)) := by
      rw [wordRule, lexRule, textScan, if_pos (beginsWith_extend hkey.2), hkey.1]
      rfl
    have hmatched : matched (keywordTexts.map (wordRule anyCase)) (u ++ r) =
        matched (as.map (wordRule anyCase)) (u ++ r) ++
          (u.length, .token (.word k.2)) :: matched (bs.map (wordRule anyCase)) (u ++ r) := by
      rw [hsplit]
      simp only [matched, List.map_append, List.map_cons, List.filterMap_append, List.filterMap_cons, hk]
    rw [hmatched, List.append_assoc, List.cons_append]
    refine Munch.longest_of_first ?_ ?_
    · intro y hy
      obtain ⟨j, hj, hb, rfl⟩ := mem_matched_words.mp hy
      obtain ⟨hlen, hb⟩ := hle j (hsplit ▸ List.mem_append_left _ hj) hb
      have hnot := has j hj
      rw [hb, Bool.and_true, Bool.not_eq_true', beq_eq_false_iff_ne] at hnot
      exact Nat.lt_of_le_of_ne hlen hnot
    · intro y hy
      rcases List.mem_append.mp hy with hy | hy
      · obtain ⟨j, hj, hb, rfl⟩ := mem_matched_words.mp hy
        exact (hle j (hsplit ▸ List.mem_append_right _ (List.mem_cons_of_mem _ hj)) hb).1
      · rw [List.mem_singleton.mp hy]

/-! ## Operators and blanks -/

theorem matched_values_none (hs : identStart c = false) (hd : c.isDigit = false) (hv : c ∉ valueMarks)
    (hm : c = '-' → ∀ d, cs.head? = some d → d.isDigit = false) : matched valueRules (c :: cs) = [] := by
  have hinteger : integerScan (c :: cs) = none := integerScan_none hd hm
  have hblob : blobScan (c :: cs) = none := by
    refine blobScan_none (.inl ⟨?_, ?_⟩) <;> rintro rfl <;> cases hs
  rw [matched_values_unmarked hv]
  simp only [matched, List.filterMap_cons, List.filterMap_nil, integerRule, realRule, blobRule, identRule,
    lexRule_none hinteger, lexRule_none (realScan_none hinteger), lexRule_none hblob, lexRule_none (identScan_none hs)]

/-- How an operator begins. -/
def operatorLike : List Char → Bool
  | c :: cs => !identStart c && !c.isDigit && !isBlank c && !(c ∈ valueMarks) && c != 'ſ' && c != '\u212a' &&
      (c != '-' || cs.isEmpty) && (c != '/' || cs.isEmpty)
  | [] => false

theorem operatorTexts_like : ∀ o ∈ operatorTexts, operatorLike o.1 = true := by decide

theorem operatorTexts_one : ∀ o ∈ operatorTexts, ∀ o' ∈ operatorTexts, o.1 = o'.1 → o = o' := by decide

theorem beginsWith_iff {k : List Char} : beginsWith (· == ·) k cs = true ↔ k <+: cs := by
  induction k generalizing cs with
  | nil => rw [beginsWith]; simp
  | cons a k ih =>
    cases cs with
    | nil => simp [beginsWith]
    | cons c cs => rw [beginsWith, Bool.and_eq_true, beq_iff_eq, ih, List.cons_prefix_cons]

theorem goesOn_operator {w : Word} (h : (u, w) ∈ operatorTexts) :
    goesOn u c = (operatorTexts.any (fun o => (u ++ [c]).isPrefixOf o.1) ||
      (u == ['-'] && (c == '-' || c.isDigit)) || (u == ['/'] && c == '*')) := by
  have hlike := operatorTexts_like _ h
  cases u with
  | nil => cases hlike
  | cons d u =>
    simp only [operatorLike, Bool.and_eq_true, Bool.not_eq_true', decide_eq_false_iff_not] at hlike
    obtain ⟨⟨⟨⟨⟨⟨⟨hs, hd⟩, -⟩, hv⟩, -⟩, -⟩, -⟩, -⟩ := hlike
    have hquote : ¬ (d = '"' ∨ d = '\x60') := by
      rintro (rfl | rfl) <;> exact hv (by decide)
    rw [goesOn, hs, hd, if_neg hquote]
    rfl

/-- An operator at the front of an operator is not longer than it. -/
theorem operator_within {w : Word} {o : List Char × Word} (h : (u, w) ∈ operatorTexts) (hr : Apart u r)
    (ho : o ∈ operatorTexts) (hb : o.1 <+: u ++ r) : o = (u, w) ∨ o.1.length < u.length := by
  rcases Nat.lt_trichotomy o.1.length u.length with hlt | heq | hgt
  · exact .inr hlt
  · have hou : o.1 = u := (List.prefix_of_prefix_length_le hb (List.prefix_append u r) (Nat.le_of_eq heq)).eq_of_length heq
    exact .inl (operatorTexts_one o ho _ h hou)
  · obtain ⟨v, hv⟩ : u <+: o.1 := List.prefix_of_prefix_length_le (List.prefix_append u r) hb (Nat.le_of_lt hgt)
    rw [← hv] at hb hgt
    cases v with
    | nil => simp at hgt
    | cons c v =>
      exfalso
      have hcr : c :: v <+: r := (List.prefix_append_right_inj u).mp hb
      obtain ⟨t, ht⟩ := hcr
      have hgo := hr c (by rw [← ht]; rfl)
      rw [goesOn_operator h, Bool.or_eq_false_iff, Bool.or_eq_false_iff, List.any_eq_false] at hgo
      refine hgo.1.1 o ho (List.isPrefixOf_iff_prefix.mpr ⟨v, ?_⟩)
      rw [← hv, List.append_assoc]
      rfl

theorem taken_operator {w : Word} (h : (u, w) ∈ operatorTexts) (hr : Apart u r) :
    Munch.taken tokenRules (u ++ r) = some (u.length, .token (.word w)) := by
  have hlike := operatorTexts_like _ h
  have hmem : (u.length, Lexeme.token (.word w)) ∈ matched (operatorTexts.map (wordRule (· == ·))) (u ++ r) :=
    mem_matched_words.mpr ⟨_, h, beginsWith_iff.mpr (List.prefix_append u r), rfl⟩
  obtain ⟨c, cs, rfl⟩ : ∃ c cs, u = c :: cs := by
    cases u with
    | nil => cases hlike
    | cons c cs => exact ⟨c, cs, rfl⟩
  simp only [operatorLike, Bool.and_eq_true, Bool.not_eq_true', Bool.or_eq_true, bne_iff_ne, ne_eq, List.isEmpty_iff,
    decide_eq_false_iff_not] at hlike
  obtain ⟨⟨⟨⟨⟨⟨⟨hs, hd⟩, hb⟩, hv⟩, hlong⟩, hkelvin⟩, hminus⟩, hslash⟩ := hlike
  -- the two operators that begin something else as well
  have hgo : ∀ d, (cs ++ r).head? = some d → (c = '-' → d ≠ '-' ∧ d.isDigit = false) ∧ (c = '/' → d ≠ '*') := by
    intro d hhead
    constructor
    · rintro rfl
      obtain rfl := hminus.resolve_left (not_not_intro rfl)
      have hgo := hr d hhead
      simp only [goesOn_operator h, Bool.or_eq_false_iff, Bool.and_eq_false_iff, beq_self_eq_true, Bool.true_eq_false,
        false_or, beq_eq_false_iff_ne] at hgo
      exact hgo.1.2
    · rintro rfl
      obtain rfl := hslash.resolve_left (not_not_intro rfl)
      have hgo := hr d hhead
      simp only [goesOn_operator h, Bool.or_eq_false_iff, Bool.and_eq_false_iff, beq_self_eq_true, Bool.true_eq_false,
        false_or, beq_eq_false_iff_ne] at hgo
      exact hgo.2
  have hskip : matched skipRules (c :: (cs ++ r)) = [] := by
    refine matched_skip_none hb ?_ ?_
    · by_cases hc : c = '-'
      · exact .inr fun hh => ((hgo _ hh).1 hc).1 rfl
      · exact .inl hc
    · by_cases hc : c = '/'
      · exact .inr fun hh => (hgo _ hh).2 hc rfl
      · exact .inl hc
  have halpha : c.isAlpha = false := by
    rw [identStart, Bool.or_eq_false_iff] at hs
    exact hs.1
  rw [List.cons_append] at hmem ⊢
  rw [taken_eq, hskip, matched_keywords_none halpha hlong hkelvin,
    matched_values_none hs hd hv fun hc d hh => ((hgo d hh).1 hc).2, List.nil_append, List.nil_append, List.append_nil]
  refine Munch.longest_of_lt hmem fun y hy => ?_
  obtain ⟨o, ho, hbegin, rfl⟩ := mem_matched_words.mp hy
  rcases operator_within h hr ho (beginsWith_iff.mp hbegin) with rfl | hlt
  · exact .inl rfl
  · exact .inr hlt

/-- One blank. -/
theorem taken_blank (hr : ∀ c, r.head? = some c → isBlank c = false) :
    Munch.taken tokenRules (' ' :: r) = some (1, .skip) := by
  have hrun : runScan isBlank ([' '] ++ r) = some 1 := runScan_parted (by decide) (by decide) hr
  have hskip : matched skipRules (' ' :: r) = [(1, .skip)] := by
    simp only [matched, skipRules, List.map_cons, List.map_nil, List.filterMap_cons, List.filterMap_nil, lexRule,
      show runScan isBlank (' ' :: r) = some 1 from hrun, Option.map_some]
    rfl
  rw [taken_eq, hskip, matched_keywords_none (by decide) (by decide) (by decide), matched_operators_none (by decide),
    matched_values_none (by decide) (by decide) (by decide) fun h => absurd h (by decide)]
  rfl

theorem minus_alone : ∀ o ∈ operatorTexts, o.1.head? = some '-' → o.1.length = 1 := by decide

/-- `--` and the rest of a line. -/
theorem taken_comment (hr : '\n' ∉ r) :
    Munch.taken tokenRules ('-' :: '-' :: r) = some (r.length + 2, .skip) := by
  have hall : (r ++ []).takeWhile (fun c => decide (c ≠ '\n')) = r := by
    refine takeWhile_parted (List.all_eq_true.mpr fun c hc => decide_eq_true ?_) nofun
    rintro rfl
    exact hr hc
  have hline : lineCommentScan ('-' :: '-' :: r) = some (r.length + 2) := by
    rw [List.append_nil] at hall
    rw [lineCommentScan, hall]
  have hblank : runScan isBlank ('-' :: '-' :: r) = none :=
    runScan_none fun d hd => Option.some.inj hd ▸ by decide
  have hskip : matched skipRules ('-' :: '-' :: r) = [(r.length + 2, .skip)] := by
    simp [matched, skipRules, lexRule, hblank, hline, blockCommentScan]
  have hdigit : ∀ d, ('-' :: r).head? = some d → d.isDigit = false := by
    intro d hd
    rw [← Option.some.inj hd]
    decide
  rw [taken_eq, hskip, matched_keywords_none (by decide) (by decide) (by decide),
    matched_values_none (by decide) (by decide) (by decide) fun _ => hdigit, List.nil_append, List.append_nil]
  show Munch.longest ([] ++ (r.length + 2, Lexeme.skip) :: _) = _
  refine Munch.longest_of_first nofun fun y hy => ?_
  obtain ⟨o, ho, hbegin, rfl⟩ := mem_matched_words.mp hy
  obtain ⟨v, hv⟩ := beginsWith_iff.mp hbegin
  have hhead : o.1.head? = some '-' := by
    cases hk : o.1 with
    | nil => exact absurd hk (operatorTexts_ne_nil o ho)
    | cons a k =>
      rw [hk, List.cons_append] at hv
      exact congrArg some (List.cons.inj hv).1
  show o.1.length ≤ r.length + 2
  rw [minus_alone o ho hhead]
  omega

/-! ## Integers -/

theorem goesOn_digits (hne : u ≠ []) (hd : u.all Char.isDigit = true) : goesOn u c = (c.isDigit || c == '.') := by
  cases u with
  | nil => exact absurd rfl hne
  | cons d u =>
    rw [List.all_cons, Bool.and_eq_true] at hd
    have hs : identStart d = false := by
      rw [Bool.eq_false_iff]
      intro h
      rw [identStart_not_digit h] at hd
      cases hd.1
    rw [goesOn, hs, hd.1]
    rfl

/-- Digits with or without a sign. -/
theorem matched_values_integer {s : List Char} (hs : s = [] ∨ s = ['-']) (hne : u ≠ []) (hd : u.all Char.isDigit = true)
    (hr : Apart u r) : matched valueRules (s ++ u ++ r) =
      [((s ++ u).length, .ofRead ((parseI64 (.ofList (s ++ u))).map .integerLit))] := by
  obtain ⟨d, ds, rfl⟩ : ∃ d ds, u = d :: ds := by
    cases u with
    | nil => exact absurd rfl hne
    | cons d ds => exact ⟨d, ds, rfl⟩
  have hdig := hd
  rw [List.all_cons, Bool.and_eq_true] at hd
  have hstop : ∀ c, r.head? = some c → c.isDigit = false ∧ c ≠ '.' := by
    intro c hc
    have hgo := hr c hc
    rw [goesOn_digits hne hdig, Bool.or_eq_false_iff, beq_eq_false_iff_ne] at hgo
    exact hgo
  have hrun : integerScan (s ++ (d :: ds) ++ r) = some (s ++ d :: ds).length := by
    have hk : optionalScan (· == '-') (s ++ (d :: ds) ++ r) = s.length := by
      rcases hs with rfl | rfl
      · have hminus : d ≠ '-' := ne_of_test hd.1 (by decide)
        simp [optionalScan, hminus]
      · rfl
    rw [integerScan, hk, List.append_assoc, List.drop_left' rfl, runScan_parted hne hdig fun c hc => (hstop c hc).1,
      List.length_append]
    rfl
  have hreal : realScan (s ++ (d :: ds) ++ r) = none := by
    rw [realScan, hrun]
    have hfraction : fractionScan r = none := by
      unfold fractionScan
      split
      · exact absurd rfl (hstop '.' rfl).2
      · rfl
    simp only [Option.bind_eq_bind, Option.bind_some, List.drop_left' rfl, hfraction, Option.bind_none]
  -- the first character, of the sign or of the digits
  obtain ⟨c, cs, hcs, hstart, hmarks⟩ : ∃ c cs, s ++ (d :: ds) ++ r = c :: cs ∧ identStart c = false ∧ c ∉ valueMarks := by
    rcases hs with rfl | rfl
    · refine ⟨d, ds ++ r, rfl, ?_, ?_⟩
      · rw [Bool.eq_false_iff]
        intro h
        rw [identStart_not_digit h] at hd
        cases hd.1
      · exact not_mem_of_test hd.1 (by decide)
    · exact ⟨'-', d :: ds ++ r, rfl, by decide, by decide⟩
  have hblob : blobScan (c :: cs) = none := by
    refine blobScan_none (.inl ⟨?_, ?_⟩) <;> rintro rfl <;> cases hstart
  have hinteger : integerRule (s ++ (d :: ds) ++ r) = _ := lexRule_some hrun
  rw [hcs] at hinteger hreal ⊢
  rw [matched_values_unmarked hmarks]
  simp only [matched, List.filterMap_cons, List.filterMap_nil, hinteger, realRule, blobRule, identRule, lexRule_none hreal,
    lexRule_none hblob, lexRule_none (identScan_none hstart)]

theorem digits_not_upper (h : c.isDigit = true) : c.isAlpha = false ∧ c ≠ 'ſ' ∧ c ≠ '\u212a' := by
  refine ⟨?_, ne_of_test h (by decide), ne_of_test h (by decide)⟩
  rw [Bool.eq_false_iff, ne_eq, isAlpha_iff]
  rw [isDigit_iff] at h
  omega

/-- Digits with or without a sign are one integer, where they fit. -/
theorem taken_integer {s : List Char} {n : Int64} (hs : s = [] ∨ s = ['-']) (hne : u ≠ []) (hd : u.all Char.isDigit = true)
    (hn : parseI64 (.ofList (s ++ u)) = some n) (hr : Apart u r) :
    Munch.taken tokenRules (s ++ u ++ r) = some ((s ++ u).length, .token (.integerLit n)) := by
  have hvalues := matched_values_integer hs hne hd hr
  rw [hn] at hvalues
  obtain ⟨d, ds, rfl⟩ : ∃ d ds, u = d :: ds := by
    cases u with
    | nil => exact absurd rfl hne
    | cons d ds => exact ⟨d, ds, rfl⟩
  rw [List.all_cons, Bool.and_eq_true] at hd
  obtain ⟨hd, -⟩ := hd
  rcases hs with rfl | rfl
  · have hblank : isBlank d = false := decide_eq_false (not_mem_of_test hd (by decide))
    have hops : d ∉ operatorChars := not_mem_of_test hd (by decide)
    obtain ⟨halpha, hlong, hkelvin⟩ := digits_not_upper hd
    rw [List.nil_append] at hvalues ⊢
    rw [taken_eq, hvalues, List.cons_append, matched_keywords_none halpha hlong hkelvin, matched_operators_none hops,
      matched_skip_none hblank (.inl (ne_of_test hd (by decide))) (.inl (ne_of_test hd (by decide)))]
    rfl
  · have hskip : matched skipRules ('-' :: (d :: ds ++ r)) = [] := by
      refine matched_skip_none (by decide) (.inr ?_) (.inl (by decide))
      exact fun h => ne_of_test hd (k := '-') (by decide) (Option.some.inj h)
    rw [taken_eq, hvalues]
    show Munch.longest (matched skipRules ('-' :: (d :: ds ++ r)) ++ (matched _ ('-' :: (d :: ds ++ r)) ++
      (matched _ ('-' :: (d :: ds ++ r)) ++ _))) = _
    rw [hskip, matched_keywords_none (by decide) (by decide) (by decide), List.nil_append, List.nil_append]
    -- the sign alone is an operator, which is shorter
    refine Munch.longest_of_first (fun y hy => ?_) nofun
    obtain ⟨o, ho, hbegin, rfl⟩ := mem_matched_words.mp hy
    obtain ⟨v, hv⟩ := beginsWith_iff.mp hbegin
    have hhead : o.1.head? = some '-' := by
      cases hk : o.1 with
      | nil => exact absurd hk (operatorTexts_ne_nil o ho)
      | cons a k =>
        rw [hk, List.cons_append] at hv
        exact congrArg some (List.cons.inj hv).1
    show o.1.length < (['-'] ++ d :: ds).length
    rw [minus_alone o ho hhead, List.length_append, List.length_cons, List.length_cons]
    omega

/-- A sign in front of digits. -/
theorem parseI64_neg {n : Int64} (hne : u ≠ []) (hd : u.all Char.isDigit = true) (h : parseI64 (.ofList u) = some n) :
    parseI64 (.ofList ('-' :: u)) = some (-n) ∧ 0 ≤ n.toInt := by
  have hsign : splitSign u = (false, u) := by
    cases u with
    | nil => exact absurd rfl hne
    | cons c u =>
      rw [List.all_cons, Bool.and_eq_true] at hd
      have hminus : c ≠ '-' := ne_of_test hd.1 (by decide)
      have hplus : c ≠ '+' := ne_of_test hd.1 (by decide)
      unfold splitSign
      split
      · rename_i heq
        exact absurd (List.cons.inj heq).1 hminus
      · rename_i heq
        exact absurd (List.cons.inj heq).1 hplus
      · rfl
  simp only [parseI64, String.toList_ofList, hsign, Option.bind_eq_bind, Bool.false_eq_true, if_false] at h
  simp only [parseI64, String.toList_ofList, splitSign, Option.bind_eq_bind, if_true]
  obtain ⟨m, hm, h⟩ := Option.bind_eq_some_iff.mp h
  split at h
  · rename_i hrange
    rw [hm, Option.bind_some, if_pos (by omega), ← Option.some.inj h]
    refine ⟨congrArg some ?_, ?_⟩
    · rw [Int64.ofInt_neg]
    · rw [Int64.toInt_ofInt_of_le (by omega) (by omega)]
      omega
  · cases h

/-! ## Names in quotes -/

theorem closingScan_quoted {q : Char} (hq : q ≠ '\\') (h : QuotedText q u) (hr : ∀ c, r.head? = some c → c ≠ q) :
    closingScan q (u ++ q :: r) = some (u.length + 1) := by
  induction h with
  | nil =>
    cases r with
    | nil => exact if_pos rfl
    | cons c r =>
      rw [List.nil_append, closingScan, if_pos rfl, if_neg (hr c rfl)]
      rfl
  | @plain c u hcq hc _ ih =>
    obtain ⟨d, ds, hds⟩ : ∃ d ds, u ++ q :: r = d :: ds := by cases u <;> exact ⟨_, _, rfl⟩
    rw [hds] at ih
    rw [List.cons_append, hds, closingScan, if_neg hcq, if_neg hc, ih]
    rfl
  | @escaped c u hc _ ih =>
    rw [List.cons_append, List.cons_append, closingScan, if_neg hq.symm, if_pos rfl, if_neg hc, ih]
    rfl
  | @doubled u _ ih =>
    rw [List.cons_append, List.cons_append, closingScan, if_pos rfl, if_pos rfl, ih]
    rfl

theorem inner_quoted (a b : Char) (u : List Char) : inner (a :: (u ++ [b])) = u := by
  rw [inner, List.drop_succ_cons, List.drop_zero, List.dropLast_concat]

/-- The marks of a quoted text, and what each makes of the text between two of them. -/
def quotedMarks : List (Char × (List Char → Token)) :=
  [('\'', fun u => .stringLit (.ofList (unescapeSqlString u))), ('"', fun u => .quotedIdent (.ofList (undouble '"' u))),
   ('\x60', fun u => .backtickIdent (.ofList (undouble '\x60' u)))]

/-- What holds of each of the marks. -/
theorem forall_marks {P : Char → Prop} (h : P '\'') (h' : P '"') (h'' : P '\x60') : ∀ q ∈ ['\'', '"', '\x60'], P q := by
  simp [h, h', h'']

theorem taken_quoted {q : Char} {read : List Char → Token} (hq : (q, read) ∈ quotedMarks) (h : QuotedText q u)
    (hr : ∀ c, r.head? = some c → c ≠ q) : Munch.taken tokenRules (q :: (u ++ [q]) ++ r) =
      some ((q :: (u ++ [q])).length, .token (read u)) := by
  have hmark : q ∈ ['\'', '"', '\x60'] := List.mem_map_of_mem (f := Prod.fst) hq
  have hrun : quotedScan q (q :: (u ++ [q]) ++ r) = some (q :: (u ++ [q])).length := by
    rw [List.cons_append, List.append_assoc, quotedScan, if_pos rfl]
    show (closingScan q (u ++ q :: r)).map _ = _
    rw [closingScan_quoted (by rintro rfl; exact absurd hmark (by decide)) h hr, List.length_cons, List.length_append]
    rfl
  have hquoted : lexRule (quotedScan q) (fun cs => .token (read (inner cs))) (q :: (u ++ [q]) ++ r) = _ := lexRule_some hrun
  rw [inner_quoted] at hquoted
  rw [List.cons_append] at hquoted ⊢
  have hmatched : matched valueRules (q :: (u ++ [q] ++ r)) = [((q :: (u ++ [q])).length, .token (read u))] := by
    have hblob : blobScan (q :: (u ++ [q] ++ r)) = none :=
      blobScan_none (.inl ⟨by rintro rfl; exact absurd hmark (by decide), by rintro rfl; exact absurd hmark (by decide)⟩)
    have hstart : identStart q = false := forall_marks (P := fun q => identStart q = false) (by decide) (by decide) (by decide) q hmark
    have hdigit : q.isDigit = false := forall_marks (P := fun q => q.isDigit = false) (by decide) (by decide) (by decide) q hmark
    have hinteger : integerScan (q :: (u ++ [q] ++ r)) = none :=
      integerScan_none hdigit (by rintro rfl; exact absurd hmark (by decide))
    have hreal := realScan_none hinteger
    simp only [quotedMarks, List.mem_cons, Prod.mk.injEq, List.not_mem_nil, or_false] at hq
    obtain ⟨rfl, rfl⟩ | ⟨rfl, rfl⟩ | ⟨rfl, rfl⟩ := hq
    all_goals
      simp only [matched, valueRules, List.filterMap_cons, List.filterMap_nil, integerRule, realRule, blobRule, identRule,
        lexRule_none hinteger, lexRule_none hreal, lexRule_none hblob, lexRule_none (identScan_none hstart),
        stringRule, quotedRule, bindRule, paramRule, hquoted]
      simp [lexRule, quotedScan, paramScan, textScan, beginsWith]
  have hskip : matched skipRules (q :: (u ++ [q] ++ r)) = [] := by
    refine matched_skip_none ?_ (.inl ?_) (.inl ?_)
    · exact forall_marks (P := fun q => isBlank q = false) (by decide) (by decide) (by decide) q hmark
    · rintro rfl
      exact absurd hmark (by decide)
    · rintro rfl
      exact absurd hmark (by decide)
  have hwords : matched (keywordTexts.map (wordRule anyCase)) (q :: (u ++ [q] ++ r)) = [] ∧
      matched (operatorTexts.map (wordRule (· == ·))) (q :: (u ++ [q] ++ r)) = [] := by
    refine ⟨matched_keywords_none ?_ ?_ ?_, matched_operators_none ?_⟩
    · exact forall_marks (P := fun q => q.isAlpha = false) (by decide) (by decide) (by decide) q hmark
    · rintro rfl
      exact absurd hmark (by decide)
    · rintro rfl
      exact absurd hmark (by decide)
    · exact forall_marks (P := fun q => q ∉ operatorChars) (by decide) (by decide) (by decide) q hmark
  rw [taken_eq, hskip, hwords.1, hwords.2, hmatched]
  rfl

/-- A text of a token is taken whole and read as the token. -/
theorem Spelled.taken {t : Token} (h : Spelled t u) (hr : Apart u r) :
    Munch.taken tokenRules (u ++ r) = some (u.length, .token t) := by
  cases h with
  | operator h => exact taken_operator h hr
  | ident h => exact taken_ident h hr
  | integer hne hd hn => exact taken_integer (.inl rfl) hne hd hn hr
  | quotedIdent h =>
    refine taken_quoted (.tail _ (.head _)) h fun c hc => ?_
    have hgo := hr c hc
    exact beq_eq_false_iff_ne.mp hgo
  | backtickIdent h =>
    refine taken_quoted (.tail _ (.tail _ (.head _))) h fun c hc => ?_
    have hgo := hr c hc
    exact beq_eq_false_iff_ne.mp hgo

/-! ## Tokens of a text -/

section
variable {p : Char → Bool} {k : Nat} {rule : Munch.Rule Char Lexeme} {b : Lexeme}

theorem runScan_pos (h : runScan p cs = some k) : 0 < k := by
  rw [runScan] at h
  split at h
  · cases h
  · rw [← Option.some.inj h]
    exact Nat.succ_pos _

theorem integerScan_pos (h : integerScan cs = some k) : 0 < k := by
  obtain ⟨j, hj, rfl⟩ := Option.map_eq_some_iff.mp h
  have := runScan_pos hj
  omega

theorem identScan_pos (h : identScan cs = some k) : 0 < k := by
  unfold identScan at h
  split at h
  · split at h
    · rw [← Option.some.inj h]
      exact Nat.succ_pos _
    · cases h
  · cases h

theorem quotedScan_pos {q : Char} (h : quotedScan q cs = some k) : 0 < k := by
  unfold quotedScan at h
  split at h
  · split at h
    · obtain ⟨j, -, rfl⟩ := Option.map_eq_some_iff.mp h
      exact Nat.succ_pos j
    · cases h
  · cases h

theorem paramScan_pos {q : Char} (h : paramScan q cs = some k) : 0 < k := by
  unfold paramScan at h
  split at h
  · split at h
    · obtain ⟨j, -, rfl⟩ := Option.map_eq_some_iff.mp h
      exact Nat.succ_pos j
    · cases h
  · cases h

theorem blobScan_pos (h : blobScan cs = some k) : 0 < k := by
  unfold blobScan at h
  split at h
  · split at h
    · dsimp only at h
      split at h
      · rw [← Option.some.inj h]
        exact Nat.succ_pos _
      · cases h
    · cases h
  · cases h

theorem realScan_pos (h : realScan cs = some k) : 0 < k := by
  obtain ⟨n, hn, h⟩ := Option.bind_eq_some_iff.mp h
  obtain ⟨j, -, h⟩ := Option.bind_eq_some_iff.mp h
  have := integerScan_pos hn
  rw [← Option.some.inj h]
  omega

theorem skipScan_pos : ∀ scan ∈ [runScan isBlank, lineCommentScan, blockCommentScan],
    ∀ {cs k}, scan cs = some k → 0 < k := by
  simp only [List.forall_mem_cons]
  refine ⟨runScan_pos, fun {cs k} h => ?_, fun {cs k} h => ?_, nofun⟩
  · unfold lineCommentScan at h
    split at h
    · rw [← Option.some.inj h]
      exact Nat.succ_pos _
    · cases h
  · unfold blockCommentScan at h
    split at h
    · obtain ⟨j, -, rfl⟩ := Option.map_eq_some_iff.mp h
      exact Nat.succ_pos _
    · cases h

theorem lexRule_scan {scan : List Char → Option Nat} {read : List Char → Lexeme} (h : lexRule scan read cs = some (k, b)) :
    scan cs = some k ∧ b = read (cs.take k) := by
  obtain ⟨j, hj, he⟩ := Option.map_eq_some_iff.mp h
  cases he
  exact ⟨hj, rfl⟩

theorem textScan_pos {same : Char → Char → Bool} {text : List Char} (ht : text ≠ [])
    (h : textScan same text cs = some k) : 0 < k := by
  rw [textScan] at h
  split at h
  · rw [← Option.some.inj h]
    exact List.length_pos_iff.mpr ht
  · cases h

/-- No rule takes nothing. -/
theorem taken_pos : ∀ cs k b, Munch.taken tokenRules cs = some (k, b) → 0 < k := by
  intro cs k b h
  obtain ⟨rule, hrule, h⟩ := List.mem_filterMap.mp (Munch.longest_mem h)
  rw [tokenRules, List.mem_append, List.mem_append, List.mem_append] at hrule
  rcases hrule with ((hrule | hrule) | hrule) | hrule
  · obtain ⟨scan, hscan, rfl⟩ := List.mem_map.mp hrule
    exact skipScan_pos scan hscan (lexRule_scan h).1
  · obtain ⟨w, hw, rfl⟩ := List.mem_map.mp hrule
    exact textScan_pos (keywordTexts_upper w hw).1 (lexRule_scan h).1
  · obtain ⟨w, hw, rfl⟩ := List.mem_map.mp hrule
    exact textScan_pos (operatorTexts_ne_nil w hw) (lexRule_scan h).1
  · simp only [valueRules, List.mem_cons, List.not_mem_nil, or_false] at hrule
    rcases hrule with rfl | rfl | rfl | rfl | rfl | rfl | rfl | rfl | rfl | rfl | rfl
    · exact integerScan_pos (lexRule_scan h).1
    · exact realScan_pos (lexRule_scan h).1
    · exact quotedScan_pos (lexRule_scan h).1
    · exact quotedScan_pos (lexRule_scan h).1
    · exact quotedScan_pos (lexRule_scan h).1
    · exact blobScan_pos (lexRule_scan h).1
    · exact identScan_pos (lexRule_scan h).1
    · exact textScan_pos (List.cons_ne_nil _ _) (lexRule_scan h).1
    · exact paramScan_pos (lexRule_scan h).1
    · exact paramScan_pos (lexRule_scan h).1
    · exact paramScan_pos (lexRule_scan h).1

end

section
variable [Unmatched] {t : Token}

/-- The token of a piece. -/
def pieceToken : List Char × Option Lexeme → Option Token
  | (_, some (.token t)) => some t
  | _ => none

/-- The tokens of a text. -/
def tokensOf (cs : List Char) : List Token := (tokenize (lexer cs)).map (·.token)

theorem tokensOf_pieces : tokensOf cs = (Munch.pieces tokenRules Unmatched.lost cs).filterMap pieceToken := by
  rw [tokensOf, lexer]
  generalize Munch.pieces tokenRules Unmatched.lost cs = ps
  generalize 0 = start
  induction ps generalizing start with
  | nil => rfl
  | cons p ps ih =>
    obtain ⟨u, lexeme⟩ := p
    cases lexeme with
    | none => exact ih _
    | some l =>
      cases l with
      | skip => exact ih _
      | token t => exact congrArg (t :: ·) (ih _)
      | error => exact ih _

theorem tokensOf_nil : tokensOf [] = [] := rfl

theorem tokensOf_taken {b : Lexeme} (h : Munch.taken tokenRules (u ++ r) = some (u.length, b)) :
    tokensOf (u ++ r) = (pieceToken (u, some b)).toList ++ tokensOf r := by
  rw [tokensOf_pieces, Munch.pieces_cons taken_pos h, List.filterMap_cons, ← tokensOf_pieces]
  split
  · rename_i he
    rw [he]
    rfl
  · rename_i he
    rw [he]
    rfl

theorem Spelled.tokensOf (h : Spelled t u) (hr : Apart u r) : tokensOf (u ++ r) = t :: tokensOf r :=
  tokensOf_taken (h.taken hr)

theorem tokensOf_blank (hr : ∀ c, r.head? = some c → isBlank c = false) : tokensOf (' ' :: r) = tokensOf r :=
  tokensOf_taken (u := [' ']) (taken_blank hr)

theorem tokensOf_comment (hr : '\n' ∉ r) : tokensOf ('-' :: '-' :: r) = [] := by
  have h := tokensOf_taken (u := '-' :: '-' :: r) (r := []) (by rw [List.append_nil]; exact taken_comment hr)
  rw [List.append_nil] at h
  exact h

theorem tokensOf_negative {n : Int64} (hne : u ≠ []) (hd : u.all Char.isDigit = true) (hn : parseI64 (.ofList u) = some n)
    (hr : Apart u r) : tokensOf ('-' :: (u ++ r)) = .integerLit (-n) :: tokensOf r :=
  tokensOf_taken (u := '-' :: u) (taken_integer (s := ['-']) (.inr rfl) hne hd (parseI64_neg hne hd hn).1 hr)

/-! ## Texts of several tokens -/

/-- A token in a text, with a blank behind it or not. -/
structure TextPart where
  token : Token
  text : List Char
  blank : Bool

def TextPart.chars (p : TextPart) : List Char := p.text ++ if p.blank then [' '] else []

/-- The text `v` may stand behind the text of `p`. -/
def TextPart.Before (p q : TextPart) : Prop :=
  p.blank = true ∨ ∀ c, q.text.head? = some c → goesOn p.text c = false

omit [Unmatched] in
theorem Spelled.head (h : Spelled t u) : ∃ c cs, u = c :: cs ∧ isBlank c = false := by
  cases h with
  | operator h =>
    have hlike := operatorTexts_like _ h
    cases u with
    | nil => cases hlike
    | cons c cs =>
      simp only [operatorLike, Bool.and_eq_true, Bool.not_eq_true'] at hlike
      exact ⟨c, cs, rfl, hlike.1.1.1.1.1.2⟩
  | ident h =>
    cases u with
    | nil => cases h
    | cons c cs =>
      rw [isIdentText, Bool.and_eq_true] at h
      exact ⟨c, cs, rfl, decide_eq_false (not_mem_of_test h.1 (by decide))⟩
  | integer hne hd _ =>
    cases u with
    | nil => exact absurd rfl hne
    | cons c cs =>
      rw [List.all_cons, Bool.and_eq_true] at hd
      exact ⟨c, cs, rfl, decide_eq_false (not_mem_of_test hd.1 (by decide))⟩
  | quotedIdent => exact ⟨_, _, rfl, by decide⟩
  | backtickIdent => exact ⟨_, _, rfl, by decide⟩

omit [Unmatched] in
theorem goesOn_blank_operator : ∀ o ∈ operatorTexts, goesOn o.1 ' ' = false := by decide

omit [Unmatched] in
/-- No text of a token goes on with a blank. -/
theorem Spelled.apart_blank (h : Spelled t u) : Apart u (' ' :: r) := by
  intro c hc
  rw [← Option.some.inj hc]
  cases h with
  | operator h => exact goesOn_blank_operator _ h
  | ident h => rw [goesOn_ident h]; decide
  | integer hne hd _ => rw [goesOn_digits hne hd]; decide
  | quotedIdent => rfl
  | backtickIdent => rfl

/-- The tokens of a text that is put together of texts of tokens. -/
theorem tokensOf_parts {ps : List TextPart} (hs : ∀ p ∈ ps, Spelled p.token p.text)
    (hc : ps.IsChain TextPart.Before) : tokensOf (ps.flatMap TextPart.chars) = ps.map (·.token) := by
  induction ps with
  | nil => rfl
  | cons p ps ih =>
    rw [List.forall_mem_cons] at hs
    have hrest := ih hs.2 (List.isChain_of_isChain_cons hc)
    have hhead : ∀ c, (ps.flatMap TextPart.chars).head? = some c →
        isBlank c = false ∧ (p.blank = false → goesOn p.text c = false) := by
      intro c hc'
      cases ps with
      | nil => cases hc'
      | cons q ps =>
        obtain ⟨d, ds, hd, hblank⟩ := (hs.2 q List.mem_cons_self).head
        rw [List.flatMap_cons, TextPart.chars, hd] at hc'
        obtain rfl := Option.some.inj hc'
        refine ⟨hblank, fun hp => ?_⟩
        rcases List.isChain_cons_cons.mp hc |>.1 with hb | hgo
        · rw [hp] at hb
          cases hb
        · exact hgo d (by rw [hd]; rfl)
    rw [List.flatMap_cons, TextPart.chars, List.map_cons, List.append_assoc]
    cases hb : p.blank with
    | true =>
      rw [if_pos rfl]
      refine (hs.1.tokensOf hs.1.apart_blank).trans (congrArg _ ?_)
      exact (tokensOf_blank fun c hc => (hhead c hc).1).trans hrest
    | false =>
      rw [if_neg nofun, List.nil_append, hs.1.tokensOf fun c hc => (hhead c hc).2 hb, hrest]

end

end Sqllite
