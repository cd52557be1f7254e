import Sqllite.L3Sql.Spelling

/-!
# String literals (`sqllite-parser/src/lexer.rs`)

The SQL way to write a text is to put it in quotation marks and to double the marks in it.
The lexer reads doubled marks as one, and it reads a backslash as an escape as well.

* `literal_reads_back`: the literal of a text is read as the text exactly when the text
  has no backslash; with its backslashes doubled every text has a literal.
-/
namespace Sqllite
open Lib

/-! ## Writing and reading -/

/-- Every quotation mark twice. -/
def doubled (s : List Char) : List Char := s.flatMap fun c => if c = '\'' then ['\'', '\''] else [c]

/-- Every backslash twice. -/
def escapeBackslashes (s : List Char) : List Char := s.flatMap fun c => if c = '\\' then ['\\', '\\'] else [c]

/-- The literal of a text. -/
def sqlLiteral (s : List Char) : List Char := '\'' :: (doubled s ++ ['\''])

variable {c d : Char} {s t cs : List Char}

@[simp] theorem doubled_nil : doubled [] = [] := rfl

@[simp] theorem doubled_quote : doubled ('\'' :: s) = '\'' :: '\'' :: doubled s := rfl

@[simp] theorem doubled_cons (h : c ≠ '\'') : doubled (c :: s) = c :: doubled s := by
  simp [doubled, h]

@[simp] theorem doubled_append : doubled (s ++ t) = doubled s ++ doubled t := List.flatMap_append

@[simp] theorem escapeBackslashes_escape : escapeBackslashes ('\\' :: s) = '\\' :: '\\' :: escapeBackslashes s := rfl

@[simp] theorem escapeBackslashes_cons (h : c ≠ '\\') : escapeBackslashes (c :: s) = c :: escapeBackslashes s := by
  simp [escapeBackslashes, h]

@[simp] theorem unescape_nil : unescapeSqlString [] = [] := rfl

@[simp] theorem unescape_pair : unescapeSqlString ('\'' :: '\'' :: cs) = '\'' :: unescapeSqlString cs := by
  simp [unescapeSqlString]

@[simp] theorem unescape_escaped : unescapeSqlString ('\\' :: d :: cs) = d :: unescapeSqlString cs := by
  simp [unescapeSqlString]

theorem unescape_cons (hs : c ≠ '\\') (hq : c = '\'' → cs.head? ≠ some '\'') :
    unescapeSqlString (c :: cs) = c :: unescapeSqlString cs := by
  cases cs with
  | nil => simp [unescapeSqlString]
  | cons d cs =>
    by_cases hc : c = '\''
    · have hd : d ≠ '\'' := fun hd => hq hc (by rw [hd]; rfl)
      simp [unescapeSqlString, hc, hd]
    · simp [unescapeSqlString, hc, hs]

/-- Without a backslash the marks are all that is doubled, and all that is undone. -/
theorem unescape_doubled (h : '\\' ∉ s) : unescapeSqlString (doubled s ++ cs) = s ++ unescapeSqlString cs := by
  induction s with
  | nil => rfl
  | cons c s ih =>
    obtain ⟨hc, hs⟩ := not_or.mp (mt List.mem_cons.mpr h)
    by_cases hq : c = '\''
    · subst hq
      simp [ih hs]
    · rw [doubled_cons hq, List.cons_append, unescape_cons (Ne.symm hc) fun h => absurd h hq, ih hs]
      rfl

/-- A backslash takes the mark behind it out of its pair; no more is read than was written. -/
theorem length_unescape_doubled : ∀ s, (unescapeSqlString (doubled s)).length ≤ s.length ∧
    (unescapeSqlString ('\'' :: doubled s)).length ≤ s.length + 1
  | [] => by decide
  | [c] => by
    by_cases hq : c = '\''
    · subst hq
      decide
    · have hhead : '\'' = '\'' → [c].head? ≠ some '\'' := by simp [hq]
      rw [doubled_cons hq, doubled_nil, unescape_cons (by decide) hhead]
      by_cases hs : c = '\\'
      · subst hs
        decide
      · rw [unescape_cons hs (by simp)]
        simp
  | c :: d :: s => by
    obtain ⟨ih, ihq⟩ := length_unescape_doubled s
    obtain ⟨ihd, ihdq⟩ := length_unescape_doubled (d :: s)
    by_cases hq : c = '\''
    · subst hq
      simpa using ⟨ihd, ihdq⟩
    · have hhead : '\'' = '\'' → (c :: doubled (d :: s)).head? ≠ some '\'' := by simp [hq]
      have hfront : (unescapeSqlString (c :: doubled (d :: s))).length ≤ (c :: d :: s).length := by
        by_cases hs : c = '\\'
        · subst hs
          by_cases hd : d = '\''
          · subst hd
            simpa using ihq
          · simp only [doubled_cons hd, unescape_escaped, List.length_cons]
            omega
        · rw [unescape_cons hs fun h => absurd h hq]
          simpa using ihd
      rw [doubled_cons hq, unescape_cons (by decide) hhead]
      exact ⟨hfront, by simpa using hfront⟩

/-- What stands behind a backslash is not what is read. -/
theorem unescape_backslash : unescapeSqlString (doubled ('\\' :: s)) ≠ '\\' :: s := by
  rw [doubled_cons (by decide)]
  intro h
  cases s with
  | nil => exact absurd h (by decide)
  | cons d s =>
    by_cases hq : d = '\''
    · subst hq
      rw [doubled_quote, unescape_escaped] at h
      exact absurd (List.cons.inj h).1 (by decide)
    · rw [doubled_cons hq, unescape_escaped] at h
      have hlen := congrArg List.length (List.cons.inj h).2
      have hle := (length_unescape_doubled s).1
      rw [List.length_cons] at hlen
      omega

theorem unescape_doubled_iff : unescapeSqlString (doubled s) = s ↔ '\\' ∉ s := by
  constructor
  · intro h hmem
    obtain ⟨front, back, rfl, hfront⟩ := List.eq_append_cons_of_mem hmem
    rw [doubled_append, unescape_doubled hfront] at h
    exact unescape_backslash (List.append_cancel_left h)
  · intro h
    have hdoubled := @unescape_doubled s [] h
    rwa [List.append_nil, unescape_nil, List.append_nil] at hdoubled

theorem unescape_escapeBackslashes : unescapeSqlString (doubled (escapeBackslashes s)) = s := by
  induction s with
  | nil => rfl
  | cons c s ih =>
    by_cases hs : c = '\\'
    · subst hs
      rw [escapeBackslashes_escape, doubled_cons (by decide), doubled_cons (by decide), unescape_escaped, ih]
    · rw [escapeBackslashes_cons hs]
      by_cases hq : c = '\''
      · subst hq
        rw [doubled_quote, unescape_pair, ih]
      · rw [doubled_cons hq, unescape_cons hs fun h => absurd h hq, ih]

/-! ## The literal -/

theorem quotedText_doubled (h : '\\' ∉ s) : QuotedText '\'' (doubled s) := by
  induction s with
  | nil => exact .nil
  | cons c s ih =>
    obtain ⟨hc, hs⟩ := not_or.mp (mt List.mem_cons.mpr h)
    by_cases hq : c = '\''
    · subst hq
      exact .doubled (ih hs)
    · rw [doubled_cons hq]
      exact .plain hq (Ne.symm hc) (ih hs)

theorem quotedText_escaped : QuotedText '\'' (doubled (escapeBackslashes s)) := by
  induction s with
  | nil => exact .nil
  | cons c s ih =>
    by_cases hs : c = '\\'
    · subst hs
      rw [escapeBackslashes_escape, doubled_cons (by decide), doubled_cons (by decide)]
      exact .escaped (by decide) ih
    · rw [escapeBackslashes_cons hs]
      by_cases hq : c = '\''
      · subst hq
        exact .doubled ih
      · rw [doubled_cons hq]
        exact .plain hq hs ih

/-- The literal of `s` is one token, and the token is `t`. -/
structure ReadsAs [Unmatched] (s t : String) : Prop where
  tokens : tokensOf (sqlLiteral s.toList) = [.stringLit t]
  whole : quotedScan '\'' (sqlLiteral s.toList) = some (sqlLiteral s.toList).length
  text : unescapeSqlString (inner (sqlLiteral s.toList)) = t.toList

theorem inner_sqlLiteral : inner (sqlLiteral s) = doubled s := inner_quoted _ _ _

theorem ReadsAs.of_quoted [Unmatched] {s t : String} (hquoted : QuotedText '\'' (doubled s.toList))
    (htext : unescapeSqlString (doubled s.toList) = t.toList) : ReadsAs s t where
  tokens := by
    have htaken := taken_quoted (r := []) (.head _) hquoted (by simp)
    rw [htext, String.ofList_toList] at htaken
    have htokens := tokensOf_taken htaken
    rw [List.append_nil, tokensOf_nil] at htokens
    exact htokens
  whole := by
    have hclosing := closingScan_quoted (r := []) (by decide) hquoted (by simp)
    rw [sqlLiteral, quotedScan, if_pos rfl, hclosing]
    simp
  text := by rw [inner_sqlLiteral, htext]

/-- The literal of a text is read as the text exactly when no character of it is taken for
an escape. With every backslash twice every text has a literal. -/
theorem literal_reads_back [Unmatched] (s : String) : (ReadsAs s s ↔ '\\' ∉ s.toList) ∧
    ReadsAs (.ofList (escapeBackslashes s.toList)) s := by
  refine ⟨⟨?_, ?_⟩, ?_⟩
  · intro h
    have htext := h.text
    rw [inner_sqlLiteral] at htext
    exact unescape_doubled_iff.mp htext
  · intro h
    exact .of_quoted (quotedText_doubled h) (unescape_doubled_iff.mpr h)
  · refine .of_quoted ?_ ?_
    · rw [String.toList_ofList]
      exact quotedText_escaped
    · rw [String.toList_ofList]
      exact unescape_escapeBackslashes

/-- `'a\b'` is read as `ab`. -/
theorem backslash_lost : let _ : Unmatched := .one
    ¬ ReadsAs "a\\b" "a\\b" ∧ ReadsAs "a\\b" "ab" := by
  intro _
  constructor
  · intro h
    exact absurd h.text (by decide)
  · have hquoted : QuotedText '\'' "a\\b".toList := .plain (by decide) (by decide) (.escaped (by decide) .nil)
    exact .of_quoted hquoted rfl

end Sqllite
