import Sqllite.L3Sql.Schema
import Sqllite.L3Sql.Names

/-!
# Definitions written back (`create_sql`, `create_index_sql`)

The statement that a table or an index is stored as in the catalog has the names and the
types of the columns, without quotation marks and without constraints.

* `createSql_tokens`, `createIndexSql_tokens`: the tokens of the text, where the names are
  plain.
* `parseOne_createSql`: the text is parsed to the statement without its constraints.
* `definitions_come_back`: a statement comes back where its names are plain and no column has
  a constraint; where no name has a quotation mark in it, only there.
-/
namespace Sqllite
open Lib Lib.Run

/-! ## Texts -/

/-- A keyword in a text. -/
def TextPart.keyword (word : Word) (text : String) : TextPart := { token := .word word, text := text.toList, blank := true }

/-- A name in a text. -/
def TextPart.name (name : String) (blank : Bool) : TextPart := { token := .ident name, text := name.toList, blank := blank }

def TextPart.lParen : TextPart := { token := .word .lParen, text := ['('], blank := false }

def TextPart.rParen : TextPart := { token := .word .rParen, text := [')'], blank := false }

def TextPart.comma : TextPart := { token := .word .comma, text := [','], blank := true }

/-- The token of the name of a type; the lexer has no keyword `NUMERIC`. -/
def ColumnType.token : ColumnType → Token
  | .integer => .word .integer
  | .real => .word .real
  | .text => .word .text
  | .blob => .word .blob
  | .null => .word .null
  | .numeric => .ident "NUMERIC"

def ColumnType.part (t : ColumnType) : TextPart := { token := t.token, text := t.sqlName.toList, blank := false }

/-- A column of a definition. -/
def columnParts (d : ColumnDef) : List TextPart := [.name d.name true, d.colType.part]

/-- A column of an index. -/
def nameParts (name : String) : List TextPart := [.name name false]

/-- A list in parentheses. -/
def listParts {α : Type} (f : α → List TextPart) (as : List α) : List TextPart :=
  .lParen :: ([TextPart.comma].intercalate (as.map f) ++ [.rParen])

def ifNotExistsParts (ifNotExists : Bool) : List TextPart :=
  if ifNotExists then [.keyword .if "IF", .keyword .not "NOT", .keyword .exists "EXISTS"] else []

/-- The parts of `create_sql`. -/
def createParts (c : CreateTable) : List TextPart :=
  .keyword .create "CREATE" :: .keyword .table "TABLE" :: (ifNotExistsParts c.ifNotExists ++
    .name c.name false :: listParts columnParts c.columns)

def uniqueParts (unique : Bool) : List TextPart := if unique then [.keyword .unique "UNIQUE"] else []

/-- The parts of `create_index_sql`. -/
def createIndexParts (c : CreateIndex) : List TextPart :=
  .keyword .create "CREATE" :: (uniqueParts c.unique ++ .keyword .index "INDEX" ::
    (ifNotExistsParts c.ifNotExists ++ .name c.name true :: .keyword .on "ON" ::
      .name c.table false :: listParts nameParts c.columns))

section
variable {α : Type} {f : α → List TextPart} {as : List α}

theorem commas_cons_cons {β : Type} (x : β) (f : α → List β) (a b : α) (as : List α) :
    [x].intercalate ((a :: b :: as).map f) = f a ++ x :: [x].intercalate ((b :: as).map f) := by simp

theorem commas_chars {g : α → String} (h : ∀ a, (f a).flatMap TextPart.chars = (g a).toList) (as : List α) :
    ([TextPart.comma].intercalate (as.map f)).flatMap TextPart.chars = (", ".intercalate (as.map g)).toList := by
  rw [String.toList_intercalate]
  induction as with
  | nil => rfl
  | cons a as ih =>
    cases as with
    | nil => simp [h]
    | cons b as =>
      rw [commas_cons_cons, List.flatMap_append, List.flatMap_cons, ih, h]
      simp [TextPart.comma, TextPart.chars]

theorem listParts_chars {g : α → String} (h : ∀ a, (f a).flatMap TextPart.chars = (g a).toList) (as : List α) :
    (listParts f as).flatMap TextPart.chars = '(' :: ((", ".intercalate (as.map g)).toList ++ [')']) := by
  rw [listParts, List.flatMap_cons, List.flatMap_append, commas_chars h]
  rfl

theorem createSql_eq (c : CreateTable) : createSql c =
    "CREATE TABLE " ++ (if c.ifNotExists then "IF NOT EXISTS " else "") ++ c.name ++ "(" ++
      ", ".intercalate (c.columns.map fun col => col.name ++ " " ++ col.colType.sqlName) ++ ")" := by
  delta createSql
  rfl

theorem createIndexSql_eq (c : CreateIndex) : createIndexSql c =
    "CREATE " ++ (if c.unique then "UNIQUE " else "") ++ "INDEX " ++ (if c.ifNotExists then "IF NOT EXISTS " else "") ++
      c.name ++ " ON " ++ c.table ++ "(" ++ ", ".intercalate c.columns ++ ")" := by
  delta createIndexSql
  rfl

theorem keyword_chars (w : Word) (text : String) : (TextPart.keyword w text).chars = text.toList ++ [' '] := rfl

theorem ifNotExistsParts_chars (b : Bool) :
    (ifNotExistsParts b).flatMap TextPart.chars = (if b then "IF NOT EXISTS " else "").toList := by
  cases b <;> decide

theorem parens_toList : "(".toList = ['('] ∧ ")".toList = [')'] := by decide

theorem createParts_chars (c : CreateTable) : (createParts c).flatMap TextPart.chars = (createSql c).toList := by
  have hcolumn : ∀ d : ColumnDef, (columnParts d).flatMap TextPart.chars = (d.name ++ " " ++ d.colType.sqlName).toList := by
    intro d
    simp [columnParts, TextPart.name, TextPart.chars, ColumnType.part]
  have hcreate : "CREATE".toList ++ [' '] ++ ("TABLE".toList ++ [' ']) = "CREATE TABLE ".toList := by decide
  have hname : (TextPart.name c.name false).chars = c.name.toList := List.append_nil _
  simp only [createParts, createSql_eq, List.flatMap_cons, List.flatMap_append, ifNotExistsParts_chars,
    listParts_chars hcolumn, keyword_chars, hname, String.toList_append, ← hcreate, parens_toList, List.append_assoc,
    List.cons_append, List.nil_append]

theorem createIndexParts_chars (c : CreateIndex) :
    (createIndexParts c).flatMap TextPart.chars = (createIndexSql c).toList := by
  have hcolumn : ∀ x : String, (nameParts x).flatMap TextPart.chars = x.toList := by
    intro x
    simp [nameParts, TextPart.name, TextPart.chars]
  have hlist := listParts_chars (g := id) hcolumn c.columns
  have hunique : (uniqueParts c.unique).flatMap TextPart.chars = (if c.unique then "UNIQUE " else "").toList := by
    cases c.unique <;> decide
  have hwords : "CREATE".toList ++ [' '] = "CREATE ".toList ∧ "INDEX".toList ++ [' '] = "INDEX ".toList ∧
      [' '] ++ ("ON".toList ++ [' ']) = " ON ".toList := by decide
  have htable : (TextPart.name c.table false).chars = c.table.toList := List.append_nil _
  have hname : (TextPart.name c.name true).chars = c.name.toList ++ [' '] := rfl
  rw [List.map_id] at hlist
  simp only [createIndexParts, createIndexSql_eq, List.flatMap_cons, List.flatMap_append, ifNotExistsParts_chars, hunique,
    hlist, htable, hname, keyword_chars, String.toList_append, ← hwords.1, ← hwords.2.1, ← hwords.2.2, parens_toList,
    List.append_assoc, List.cons_append, List.nil_append]

end

/-! ## Their tokens -/

/-- The keywords of the texts. -/
def catalogWords : List (Word × String) :=
  [(.create, "CREATE"), (.table, "TABLE"), (.unique, "UNIQUE"), (.index, "INDEX"), (.on, "ON"), (.if, "IF"),
   (.not, "NOT"), (.exists, "EXISTS"), (.integer, "INTEGER"), (.real, "REAL"), (.text, "TEXT"), (.blob, "BLOB"),
   (.null, "NULL")]

theorem catalogWords_keyword : ∀ k ∈ catalogWords, isIdentText k.2.toList = true ∧ keyword? k.2.toList = some k.1 := by
  decide +kernel

theorem keyword_spelled {w : Word} {text : String} (h : (w, text) ∈ catalogWords) : Spelled (.word w) text.toList := by
  obtain ⟨hident, hkeyword⟩ := catalogWords_keyword _ h
  have hspelled := Spelled.ident hident
  rw [identToken, hkeyword] at hspelled
  exact hspelled

theorem ColumnType.sqlName_ident (t : ColumnType) : isIdentText t.sqlName.toList = true := by
  cases t <;> decide

theorem ColumnType.spelled (t : ColumnType) : Spelled t.token t.sqlName.toList := by
  cases t with
  | numeric =>
    have hplain : PlainName "NUMERIC" := ⟨by decide, by decide +kernel⟩
    exact hplain.spelled
  | _ => exact keyword_spelled (by decide)

/-- The punctuation behind a name. -/
def TextPart.isMark (p : TextPart) : Prop := p = .lParen ∨ p = .rParen ∨ p = .comma

theorem TextPart.isMark.spelled {p : TextPart} (h : p.isMark) : Spelled p.token p.text := by
  rcases h with rfl | rfl | rfl <;> exact .operator (by decide)

/-- A mark may stand behind a name or a type without a blank. -/
theorem before_mark {p q : TextPart} (hp : isIdentText p.text = true) (hq : q.isMark) : p.Before q := by
  refine .inr fun c hc => ?_
  rw [goesOn_ident hp]
  rcases hq with rfl | rfl | rfl <;> obtain rfl := Option.some.inj hc <;> decide

theorem lParen_alone : ∀ o ∈ operatorTexts, o.1.head? = some '(' → o.1.length = 1 := by decide

/-- Everything may stand behind an opening parenthesis. -/
theorem lParen_before (p : TextPart) : TextPart.lParen.Before p := by
  refine .inr fun c _ => ?_
  have hmem : (['('], Word.lParen) ∈ operatorTexts := by decide
  have hany : (operatorTexts.any fun o => (['('] ++ [c]).isPrefixOf o.1) = false := by
    rw [List.any_eq_false]
    intro o ho hprefix
    obtain ⟨r, hr⟩ := List.isPrefixOf_iff_prefix.mp hprefix
    have hone := lParen_alone o ho (by rw [← hr]; rfl)
    rw [← hr] at hone
    cases hone
  rw [TextPart.lParen, goesOn_operator hmem, hany]
  rfl

section
variable {α : Type} {f : α → List TextPart} {as : List α}

/-- Something with a blank behind it, in front of a text. -/
theorem chain_blank {p : TextPart} {ps : List TextPart} (hp : p.blank = true) (h : ps.IsChain TextPart.Before) :
    (p :: ps).IsChain TextPart.Before :=
  List.isChain_cons.mpr ⟨fun _ _ => .inl hp, h⟩

/-- What stands in a list of `f`s stands in front of a mark. -/
def Listed (f : α → List TextPart) (a : α) : Prop :=
  ∀ q ps, q.isMark → (q :: ps).IsChain TextPart.Before → (f a ++ q :: ps).IsChain TextPart.Before

theorem columnParts_listed (d : ColumnDef) : Listed columnParts d := by
  intro q ps hq hps
  have hbefore : d.colType.part.Before q := before_mark d.colType.sqlName_ident hq
  exact chain_blank rfl (.cons_cons hbefore hps)

theorem nameParts_listed {name : String} (h : PlainName name) : Listed nameParts name := fun _ _ hq hps =>
  .cons_cons (before_mark h.1 hq) hps

theorem listParts_chain (h : ∀ a ∈ as, Listed f a) : (listParts f as).IsChain TextPart.Before := by
  have hinner : ([TextPart.comma].intercalate (as.map f) ++ [TextPart.rParen]).IsChain TextPart.Before := by
    induction as with
    | nil => exact .singleton _
    | cons a as ih =>
      rw [List.forall_mem_cons] at h
      cases as with
      | nil =>
        rw [List.map_singleton, List.intercalate_singleton]
        exact h.1 _ _ (.inr (.inl rfl)) (.singleton _)
      | cons b as =>
        rw [commas_cons_cons, List.append_assoc, List.cons_append]
        exact h.1 _ _ (.inr (.inr rfl)) (chain_blank rfl (ih h.2))
  exact List.isChain_cons.mpr ⟨fun q _ => lParen_before q, hinner⟩

/-- The parts of a list, one by one. -/
theorem forall_listParts {P : TextPart → Prop} (hmark : ∀ p : TextPart, p.isMark → P p) (h : ∀ a ∈ as, ∀ p ∈ f a, P p) :
    ∀ p ∈ listParts f as, P p := by
  have hinner : ∀ p ∈ [TextPart.comma].intercalate (as.map f), P p := by
    induction as with
    | nil => exact nofun
    | cons a as ih =>
      rw [List.forall_mem_cons] at h
      cases as with
      | nil =>
        rw [List.map_singleton, List.intercalate_singleton]
        exact h.1
      | cons b as =>
        rw [commas_cons_cons]
        simp only [List.forall_mem_append, List.forall_mem_cons]
        exact ⟨h.1, hmark _ (.inr (.inr rfl)), ih h.2⟩
  simp only [listParts, List.forall_mem_cons, List.forall_mem_append]
  exact ⟨hmark _ (.inl rfl), hinner, hmark _ (.inr (.inl rfl)), nofun⟩

end

theorem forall_ifNotExistsParts {P : TextPart → Prop} (hword : ∀ k ∈ catalogWords, P (.keyword k.1 k.2)) (b : Bool) :
    ∀ p ∈ ifNotExistsParts b, P p := by
  unfold ifNotExistsParts
  split
  · simp only [List.forall_mem_cons]
    exact ⟨hword (.if, "IF") (by decide), hword (.not, "NOT") (by decide), hword (.exists, "EXISTS") (by decide), nofun⟩
  · exact nofun

theorem ifNotExistsParts_chain (b : Bool) {ps : List TextPart} (h : ps.IsChain TextPart.Before) :
    (ifNotExistsParts b ++ ps).IsChain TextPart.Before := by
  unfold ifNotExistsParts
  split
  · exact chain_blank rfl (chain_blank rfl (chain_blank rfl h))
  · exact h

/-- The parts of a definition are marks, keywords, types and names. -/
theorem forall_createParts {P : TextPart → Prop} {c : CreateTable} (hmark : ∀ p : TextPart, p.isMark → P p)
    (hword : ∀ k ∈ catalogWords, P (.keyword k.1 k.2)) (htype : ∀ t : ColumnType, P t.part)
    (hname : ∀ name ∈ c.name :: c.columns.map (·.name), ∀ b, P (.name name b)) : ∀ p ∈ createParts c, P p := by
  rw [List.forall_mem_cons, List.forall_mem_map] at hname
  have hlist : ∀ p ∈ listParts columnParts c.columns, P p := forall_listParts hmark fun d hd p hp => by
    rw [columnParts, List.mem_cons, List.mem_singleton] at hp
    rcases hp with rfl | rfl
    · exact hname.2 d hd true
    · exact htype _
  simp only [createParts, List.forall_mem_cons, List.forall_mem_append]
  exact ⟨hword (.create, "CREATE") (by decide), hword (.table, "TABLE") (by decide), forall_ifNotExistsParts hword _,
    hname.1 false, hlist⟩

theorem forall_createIndexParts {P : TextPart → Prop} {c : CreateIndex} (hmark : ∀ p : TextPart, p.isMark → P p)
    (hword : ∀ k ∈ catalogWords, P (.keyword k.1 k.2))
    (hname : ∀ name ∈ c.name :: c.table :: c.columns, ∀ b, P (.name name b)) : ∀ p ∈ createIndexParts c, P p := by
  rw [List.forall_mem_cons, List.forall_mem_cons] at hname
  have hlist : ∀ p ∈ listParts nameParts c.columns, P p := forall_listParts hmark fun x hx p hp => by
    rw [nameParts, List.mem_singleton] at hp
    rw [hp]
    exact hname.2.2 x hx false
  have hunique : ∀ p ∈ uniqueParts c.unique, P p := by
    unfold uniqueParts
    split
    · exact List.forall_mem_singleton.mpr (hword (.unique, "UNIQUE") (by decide))
    · exact nofun
  simp only [createIndexParts, List.forall_mem_cons, List.forall_mem_append]
  exact ⟨hword (.create, "CREATE") (by decide), hunique, hword (.index, "INDEX") (by decide),
    forall_ifNotExistsParts hword _, hname.1 true, hword (.on, "ON") (by decide), hname.2.1 false, hlist⟩

section
variable [Unmatched]

/-- The tokens of the text of a table with plain names. -/
theorem createSql_tokens {c : CreateTable} (h : ∀ name ∈ c.name :: c.columns.map (·.name), PlainName name) :
    tokensOf (createSql c).toList = (createParts c).map (·.token) := by
  rw [← createParts_chars]
  refine tokensOf_parts ?_ ?_
  · exact forall_createParts (fun p hp => hp.spelled) (fun k hk => keyword_spelled hk) (fun t => t.spelled)
      fun name hname _ => (h name hname).spelled
  · have hname : (TextPart.name c.name false :: listParts columnParts c.columns).IsChain TextPart.Before := by
      have hplain := h _ List.mem_cons_self
      exact .cons_cons (before_mark hplain.1 (.inl rfl)) (listParts_chain fun d _ => columnParts_listed d)
    exact chain_blank rfl (chain_blank rfl (ifNotExistsParts_chain _ hname))

/-- The tokens of the text of an index with plain names. -/
theorem createIndexSql_tokens {c : CreateIndex} (h : ∀ name ∈ c.name :: c.table :: c.columns, PlainName name) :
    tokensOf (createIndexSql c).toList = (createIndexParts c).map (·.token) := by
  rw [← createIndexParts_chars]
  refine tokensOf_parts ?_ ?_
  · exact forall_createIndexParts (fun p hp => hp.spelled) (fun k hk => keyword_spelled hk)
      fun name hname _ => (h name hname).spelled
  · rw [List.forall_mem_cons, List.forall_mem_cons] at h
    have htable : (TextPart.name c.table false :: listParts nameParts c.columns).IsChain TextPart.Before :=
      .cons_cons (before_mark h.2.1.1 (.inl rfl)) (listParts_chain fun x hx => nameParts_listed (h.2.2 x hx))
    have hindex := ifNotExistsParts_chain c.ifNotExists (chain_blank (p := .name c.name true) rfl
      (chain_blank (p := .keyword .on "ON") rfl htable))
    refine chain_blank rfl ?_
    unfold uniqueParts
    split
    · exact chain_blank rfl (chain_blank rfl hindex)
    · exact chain_blank rfl hindex

end

/-! ## What the tokens are parsed to -/

theorem listParts_tokens {α : Type} (f : α → List TextPart) (as : List α) : (listParts f as).map (·.token) =
    .word .lParen :: ([Token.word .comma].intercalate (as.map fun a => (f a).map (·.token)) ++ [.word .rParen]) := by
  have hinner : ([TextPart.comma].intercalate (as.map f)).map (·.token) =
      [Token.word .comma].intercalate (as.map fun a => (f a).map (·.token)) := by
    induction as with
    | nil => rfl
    | cons a as ih =>
      cases as with
      | nil => simp
      | cons b as =>
        rw [commas_cons_cons, List.map_append, List.map_cons, ih]
        simp [TextPart.comma]
  rw [listParts, List.map_cons, List.map_append, hinner]
  rfl

theorem length_le_listParts {α : Type} (f : α → List TextPart) (as : List α) : as.length ≤ (listParts f as).length := by
  have hinner : as.length ≤ ([TextPart.comma].intercalate (as.map f)).length + 1 := by
    induction as with
    | nil => exact Nat.zero_le _
    | cons a as ih =>
      cases as with
      | nil => exact Nat.le_add_left _ _
      | cons b as =>
        rw [List.length_cons] at ih
        rw [commas_cons_cons, List.length_append, List.length_cons, List.length_cons, List.length_cons]
        omega
  rw [listParts, List.length_cons, List.length_append, List.length_singleton]
  omega

namespace Parser

section
variable {α : Type} {item : ParserM α} {toks : α → List Token} {as : List α} {s : Parser} {r : List Token}

theorem left_next {t : Token} (h : s.left = t :: r) : (s.skip 1).left = r := left_behind (w := [t]) h

/-- In front of a comma or a closing parenthesis `w` is taken as `a`. -/
def Delimited (m : ParserM α) (w : List Token) (a : α) : Prop :=
  ∀ ⦃s t r⦄, (t = .word .comma ∨ t = .word .rParen) → s.left = w ++ t :: r → m s = .ok a (s.skip w.length)

theorem commaList_left (hne : as ≠ []) (h : ∀ a ∈ as, Delimited item (toks a) a) {n : Nat} (hn : as.length ≤ n)
    (hs : s.left = [Token.word .comma].intercalate (as.map toks) ++ .word .rParen :: r) :
    commaList item n s = .ok as (s.skip ([Token.word .comma].intercalate (as.map toks)).length) := by
  induction as generalizing s n with
  | nil => exact absurd rfl hne
  | cons a as ih =>
    rw [List.length_cons] at hn
    obtain ⟨n, rfl⟩ : ∃ k, n = k + 1 := ⟨n - 1, by omega⟩
    rw [List.forall_mem_cons] at h
    cases as with
    | nil =>
      rw [List.map_singleton, List.intercalate_singleton] at hs ⊢
      have hitem := h.1 (.inr rfl) hs
      have hbehind : (s.skip (toks a).length).left = .word .rParen :: r := left_behind hs
      rw [commaList, bind_ok hitem, branch_miss (by rw [hbehind]; simp)]
      rfl
    | cons b as =>
      rw [commas_cons_cons] at hs ⊢
      generalize [Token.word .comma].intercalate ((b :: as).map toks) = w at hs ⊢ ih
      rw [List.append_assoc, List.cons_append] at hs
      have hitem := h.1 (.inl rfl) hs
      have hbehind : (s.skip (toks a).length).left = .word .comma :: (w ++ .word .rParen :: r) := left_behind hs
      have hrest := ih (List.cons_ne_nil _ _) h.2 (by omega : (b :: as).length ≤ n)
        (left_next hbehind)
      rw [commaList, bind_ok hitem, branch_hit hbehind, bind_ok hrest, skip_skip, skip_skip, List.length_append,
        List.length_cons, Nat.add_comm w.length]
      rfl

theorem parseList_left (hne : as ≠ []) (h : ∀ a ∈ as, Delimited item (toks a) a) {n : Nat} (hn : as.length ≤ n)
    (hs : s.left = .word .lParen :: ([Token.word .comma].intercalate (as.map toks) ++ [.word .rParen])) :
    ∃ s', parseList item n s = .ok as s' := by
  have hinner := left_next hs
  have hitems := commaList_left hne h hn hinner
  have hclose : ((s.skip 1).skip ([Token.word .comma].intercalate (as.map toks)).length).left = [.word .rParen] :=
    left_behind hinner
  rw [parseList, bind_ok (expect_hit hs), bind_ok hitems, bind_ok (expect_hit hclose)]
  exact ⟨_, rfl⟩

theorem parseIfNotExists_left {b : Bool} {t : Token} (ht : t ≠ .word .if)
    (hs : s.left = (ifNotExistsParts b).map (·.token) ++ t :: r) :
    parseIfNotExists s = .ok b (s.skip ((ifNotExistsParts b).map (·.token)).length) := by
  cases b with
  | false => exact branch_miss (by rw [hs]; exact fun h => ht (Option.some.inj h))
  | true =>
    have hnot := left_next hs
    have hexists := left_next hnot
    rw [parseIfNotExists, branch_hit hs, bind_ok (expect_hit hnot), bind_ok (expect_hit hexists)]
    rfl

theorem parseColumnType_left {t : ColumnType} (hs : s.left = t.token :: r) : parseColumnType s = .ok t (s.skip 1) := by
  cases t with
  | numeric =>
    have hmiss : ∀ {v : Word}, s.left.head? ≠ some (.word v) := by
      intro v
      rw [hs]
      exact nofun
    rw [parseColumnType, branch_miss hmiss, branch_miss hmiss, branch_miss hmiss, branch_miss hmiss, branch_miss hmiss,
      bind_ok (currentToken_left s), hs]
    have hnumeric : columnTypeOfName "NUMERIC" = .numeric := by decide +kernel
    refine (advance_bind hs (Pure.pure (columnTypeOfName "NUMERIC"))).trans ?_
    rw [hnumeric]
    rfl
  | _ =>
    simp only [parseColumnType, branch_word hs, reduceCtorEq, if_false, if_true]
    rfl

variable [DebugText]

/-- A column without constraints. -/
theorem parseColumnDef_left {d : ColumnDef} (hd : d.constraints = []) {n : Nat} :
    Delimited (parseColumnDef (n + 1)) ((columnParts d).map (·.token)) d := by
  intro s t r ht hs
  have htype : (s.skip 1).left = d.colType.token :: t :: r := left_next hs
  have hrest : ((s.skip 1).skip 1).left = t :: r := left_next htype
  have hmiss : ∀ v : Word, v ≠ .comma ∧ v ≠ .rParen → ((s.skip 1).skip 1).left.head? ≠ some (.word v) := by
    intro v hv h
    rw [hrest] at h
    rcases ht with rfl | rfl
    · exact hv.1 (Token.word.inj (Option.some.inj h)).symm
    · exact hv.2 (Token.word.inj (Option.some.inj h)).symm
  have hkeys : parsePrimaryKeys (n + 1) ((s.skip 1).skip 1) = .ok [] ((s.skip 1).skip 1) :=
    branch_miss (hmiss .primary (by decide))
  rw [parseColumnDef, bind_ok (parseIdent_left hs (.inl rfl)), bind_ok (parseColumnType_left htype), bind_ok hkeys,
    bind_ok ((branch_miss (Y := Pure.pure []) (hmiss .not (by decide))).trans rfl),
    bind_ok (matchToken_miss (hmiss .unique (by decide))), bind_ok (optional_miss (hmiss .default (by decide)))]
  cases d
  subst hd
  rfl

omit [DebugText] in
theorem parseIdent_delimited (name : String) : Delimited parseIdent ((nameParts name).map (·.token)) name :=
  fun _ _ _ _ hs => parseIdent_left hs (.inl rfl)

omit [DebugText] in
/-- A list of parts is parsed. -/
theorem parseList_parts {f : α → List TextPart} (hne : as ≠ []) (h : ∀ a ∈ as, Delimited item ((f a).map (·.token)) a)
    {n : Nat} (hn : as.length ≤ n) (hs : s.left = (listParts f as).map (·.token)) : ∃ s', parseList item n s = .ok as s' :=
  parseList_left hne h hn (hs.trans (listParts_tokens f as))

theorem parseStatement_create {n : Nat} (hs : s.left = .word .create :: r) :
    parseStatement n s = parseCreate n (s.skip 1) := by
  have hmiss : ∀ v : Word, v ≠ .create → s.left.head? ≠ some (.word v) := by
    intro v hv h
    rw [hs] at h
    exact hv (Token.word.inj (Option.some.inj h)).symm
  rw [parseStatement, branch_miss (hmiss .select (by decide)), branch_miss (hmiss .insert (by decide)),
    branch_miss (hmiss .update (by decide)), branch_miss (hmiss .delete (by decide)), branch_hit hs]

/-- The statement of the tokens of a table without constraints. -/
theorem parseStatement_createTable {c : CreateTable} {n : Nat} (hne : c.columns ≠ []) (htemp : c.temp = false)
    (hbare : ∀ d ∈ c.columns, d.constraints = []) (hn : c.columns.length ≤ n + 1)
    (hs : s.left = (createParts c).map (·.token)) : ∃ s', parseStatement (n + 1) s = .ok (.createTable c) s' := by
  have hs : s.left = .word .create :: .word .table :: ((ifNotExistsParts c.ifNotExists).map (·.token) ++
      .ident c.name :: (listParts columnParts c.columns).map (·.token)) := by
    rw [hs, createParts, List.map_cons, List.map_cons, List.map_append, List.map_cons]
    rfl
  have htable := left_next hs
  have hifNotExists := left_next htable
  have hflag := parseIfNotExists_left (t := .ident c.name) nofun hifNotExists
  have hname := left_behind hifNotExists
  obtain ⟨s', hlist⟩ := parseList_parts hne (fun d hd => parseColumnDef_left (hbare d hd)) hn (left_next hname)
  have hmiss : ∀ v : Word, v ≠ .table → (s.skip 1).left.head? ≠ some (.word v) := by
    intro v hv h
    rw [htable] at h
    exact hv (Token.word.inj (Option.some.inj h)).symm
  refine ⟨s', ?_⟩
  rw [parseStatement_create hs, parseCreate, bind_ok (matchToken_miss (hmiss .unique (by decide))), branch_miss (hmiss .index (by decide)),
    bind_ok (expect_hit htable), bind_ok]
  · rfl
  · rw [parseCreateTable, bind_ok hflag, bind_ok (parseIdent_left hname (.inl rfl)), bind_ok hlist]
    cases c
    subst htemp
    rfl

/-- The statement of the tokens of an index. -/
theorem parseStatement_createIndex {c : CreateIndex} {n : Nat} (hne : c.columns ≠ []) (hn : c.columns.length ≤ n)
    (hs : s.left = (createIndexParts c).map (·.token)) : ∃ s', parseStatement n s = .ok (.createIndex c) s' := by
  have hs : s.left = .word .create :: ((uniqueParts c.unique).map (·.token) ++ .word .index ::
      ((ifNotExistsParts c.ifNotExists).map (·.token) ++ .ident c.name :: .word .on :: .ident c.table ::
        (listParts nameParts c.columns).map (·.token))) := by
    rw [hs, createIndexParts, List.map_cons, List.map_append, List.map_cons, List.map_append]
    rfl
  have hrest := left_next hs
  -- `UNIQUE` is taken where it stands
  obtain ⟨t, hunique, hindex⟩ : ∃ t, matchToken .unique (s.skip 1) = .ok c.unique t ∧ t.left = .word .index ::
      ((ifNotExistsParts c.ifNotExists).map (·.token) ++ .ident c.name :: .word .on :: .ident c.table ::
        (listParts nameParts c.columns).map (·.token)) := by
    cases hu : c.unique with
    | false =>
      rw [hu] at hrest
      exact ⟨_, matchToken_miss (by rw [hrest]; exact nofun), hrest⟩
    | true =>
      rw [hu] at hrest
      exact ⟨_, matchToken_hit hrest, left_next hrest⟩
  have hifNotExists := left_next hindex
  have hflag := parseIfNotExists_left (t := .ident c.name) nofun hifNotExists
  have hname := left_behind hifNotExists
  have hon := left_next hname
  have htable := left_next hon
  obtain ⟨s', hlist⟩ := parseList_parts hne (fun x _ => parseIdent_delimited x) hn (left_next htable)
  refine ⟨s', ?_⟩
  rw [parseStatement_create hs, parseCreate, bind_ok hunique, branch_hit hindex, bind_ok]
  · rfl
  · rw [parseCreateIndex, bind_ok hflag, bind_ok (parseIdent_left hname (.inl rfl)), bind_ok (expect_hit hon),
      bind_ok (parseIdent_left htable (.inl rfl)), bind_ok hlist]
    rfl

end

end Parser

/-! ## Definitions that come back -/

/-- The statement without its constraints, as `create_sql` writes it. -/
def CreateTable.bare (c : CreateTable) : CreateTable :=
  { c with columns := c.columns.map fun d => { d with constraints := [] } }

theorem createSql_bare (c : CreateTable) : createSql c.bare = createSql c := by
  rw [createSql_eq, createSql_eq, CreateTable.bare, List.map_map]
  rfl

/-- The names in a definition. -/
def CreateTable.names (c : CreateTable) : List String := c.name :: c.columns.map (·.name)

def CreateIndex.names (c : CreateIndex) : List String := c.name :: c.table :: c.columns

/-- A text whose parts have no quotation marks has none. -/
theorem unmarked_parts {ps : List TextPart} (h : ∀ p ∈ ps, Unmarked p.text) : Unmarked (ps.flatMap TextPart.chars) := by
  have hno : ∀ q, q ≠ ' ' → (∀ p ∈ ps, q ∉ p.text) → q ∉ ps.flatMap TextPart.chars := by
    intro q hq hp hmem
    obtain ⟨p, hmem, hchars⟩ := List.mem_flatMap.mp hmem
    rw [TextPart.chars, List.mem_append] at hchars
    refine hchars.elim (hp p hmem) fun hblank => ?_
    split at hblank
    · exact hq (List.mem_singleton.mp hblank)
    · cases hblank
  exact ⟨hno _ (by decide) fun p hp => (h p hp).1, hno _ (by decide) fun p hp => (h p hp).2⟩

theorem NamedIn.plain [Unmatched] {cs : List Char} {name : String} (hq : Unmarked cs)
    (h : NamedIn (tokenize (lexer cs)) name) : PlainName name := by
  obtain ⟨t, hmem, ht⟩ := h
  exact plainName_of_mem hq ht hmem

section
variable [DebugText] [Unmatched]

/-- What `create_sql` writes is parsed to a table of the same name and columns. -/
def CreateTable.ComesBack (c : CreateTable) : Prop :=
  ∃ c', parseOne (lexer (createSql c).toList) = .ok (.createTable c') ∧ c'.name = c.name ∧ c'.columns = c.columns

/-- What `create_index_sql` writes is parsed to an index of the same name on the same columns. -/
def CreateIndex.ComesBack (c : CreateIndex) : Prop :=
  ∃ c', parseOne (lexer (createIndexSql c).toList) = .ok (.createIndex c') ∧ c'.name = c.name ∧
    c'.table = c.table ∧ c'.columns = c.columns ∧ c'.unique = c.unique

/-- Where the names are plain, the constraints alone are lost. -/
theorem parseOne_createSql {c : CreateTable} (hne : c.columns ≠ []) (htemp : c.temp = false)
    (h : ∀ name ∈ c.names, PlainName name) : parseOne (lexer (createSql c).toList) = .ok (.createTable c.bare) := by
  have hnames : ∀ name ∈ c.bare.names, PlainName name := by
    have hsame : c.bare.names = c.names := by simp [CreateTable.names, CreateTable.bare, Function.comp_def]
    rw [hsame]
    exact h
  have htokens := createSql_tokens hnames
  rw [createSql_bare, tokensOf] at htokens
  generalize lexer (createSql c).toList = items at htokens ⊢
  have hlen : c.bare.columns.length ≤ (tokenize items).length + 1 := by
    have hlist := length_le_listParts columnParts c.bare.columns
    have heq := congrArg List.length htokens
    rw [List.length_map, List.length_map, createParts, List.length_cons, List.length_cons, List.length_append,
      List.length_cons] at heq
    omega
  have hcolumns : c.bare.columns ≠ [] := fun h => hne (List.map_eq_nil_iff.mp h)
  have hbare : ∀ d ∈ c.bare.columns, d.constraints = [] := by
    intro d hd
    obtain ⟨d', -, rfl⟩ := List.mem_map.mp hd
    rfl
  obtain ⟨s', hrun⟩ := Parser.parseStatement_createTable (s := Parser.new (tokenize items)) hcolumns htemp hbare hlen htokens
  exact outcome_ok hrun

theorem parseOne_createIndexSql {c : CreateIndex} (hne : c.columns ≠ []) (h : ∀ name ∈ c.names, PlainName name) :
    parseOne (lexer (createIndexSql c).toList) = .ok (.createIndex c) := by
  have htokens := createIndexSql_tokens h
  rw [tokensOf] at htokens
  generalize lexer (createIndexSql c).toList = items at htokens ⊢
  have hlen : c.columns.length ≤ (tokenize items).length + 1 := by
    have hlist := length_le_listParts nameParts c.columns
    have heq := congrArg List.length htokens
    simp only [List.length_map, createIndexParts, List.length_cons, List.length_append] at heq
    omega
  obtain ⟨s', hrun⟩ := Parser.parseStatement_createIndex (s := Parser.new (tokenize items)) hne hlen htokens
  exact outcome_ok hrun

theorem CreateTable.ComesBack.plain {c : CreateTable} (h : c.ComesBack)
    (hq : ∀ name ∈ c.names, Unmarked name.toList) : ∀ name ∈ c.names, PlainName name := by
  obtain ⟨c', hparse, hname, hcolumns⟩ := h
  have hunmarked : Unmarked (createSql c).toList := by
    rw [← createParts_chars]
    refine unmarked_parts (forall_createParts ?_ (by decide) (fun t => ?_) fun name hmem _ => hq name hmem)
    · rintro p (rfl | rfl | rfl) <;> decide
    · cases t <;> decide
  obtain ⟨hnamed, -, -, hcolumn⟩ := parseOne_names hparse
  rw [hname] at hnamed
  rw [hcolumns] at hcolumn
  rw [CreateTable.names, List.forall_mem_cons, List.forall_mem_map]
  exact ⟨hnamed.plain hunmarked, fun d hd => (hcolumn d hd).plain hunmarked⟩

/-- The text is parsed to the bare statement, so what comes back is bare. -/
theorem CreateTable.ComesBack.bare {c : CreateTable} (h : c.ComesBack) (hne : c.columns ≠ []) (htemp : c.temp = false)
    (hplain : ∀ name ∈ c.names, PlainName name) : ∀ d ∈ c.columns, d.constraints = [] := by
  obtain ⟨c', hparse, -, hcolumns⟩ := h
  rw [parseOne_createSql hne htemp hplain] at hparse
  cases hparse
  intro d hd
  rw [← hcolumns] at hd
  obtain ⟨d', -, rfl⟩ := List.mem_map.mp hd
  rfl

theorem CreateIndex.ComesBack.plain {c : CreateIndex} (h : c.ComesBack)
    (hq : ∀ name ∈ c.names, Unmarked name.toList) : ∀ name ∈ c.names, PlainName name := by
  obtain ⟨c', hparse, hname, htable, hcolumns, -⟩ := h
  have hunmarked : Unmarked (createIndexSql c).toList := by
    rw [← createIndexParts_chars]
    refine unmarked_parts (forall_createIndexParts ?_ (by decide) fun name hmem _ => hq name hmem)
    rintro p (rfl | rfl | rfl) <;> decide
  obtain ⟨hnamed, hon, -, hcolumn⟩ := parseOne_names hparse
  rw [hname] at hnamed
  rw [htable] at hon
  rw [hcolumns] at hcolumn
  rw [CreateIndex.names, List.forall_mem_cons, List.forall_mem_cons]
  exact ⟨hnamed.plain hunmarked, hon.plain hunmarked, fun x hx => (hcolumn x hx).plain hunmarked⟩

/-- Every name is plain and no column has a constraint. -/
def CreateTable.Plain (c : CreateTable) : Prop :=
  (∀ name ∈ c.names, PlainName name) ∧ ∀ d ∈ c.columns, d.constraints = []

/-- A definition that is parsed comes back where its names are plain and no column has a
constraint; if no name has a quotation mark in it, only there. -/
theorem definitions_come_back (items : List (Option SpannedToken)) :
    (∀ c, parseOne items = .ok (.createTable c) → (c.Plain → c.ComesBack) ∧
      ((∀ name ∈ c.names, Unmarked name.toList) → (c.ComesBack ↔ c.Plain))) ∧
    ∀ c, parseOne items = .ok (.createIndex c) → ((∀ name ∈ c.names, PlainName name) → c.ComesBack) ∧
      ((∀ name ∈ c.names, Unmarked name.toList) → (c.ComesBack ↔ ∀ name ∈ c.names, PlainName name)) := by
  constructor
  · intro c hc
    obtain ⟨-, hne, htemp, -⟩ := parseOne_names hc
    have hback : c.Plain → c.ComesBack := by
      rintro ⟨hplain, hbare⟩
      refine ⟨c.bare, parseOne_createSql hne htemp hplain, rfl, ?_⟩
      have hcolumn : ∀ d ∈ c.columns, ({ d with constraints := [] } : ColumnDef) = d := by
        intro d hd
        have hnone := hbare d hd
        cases d
        subst hnone
        rfl
      exact (List.map_congr_left hcolumn).trans (List.map_id _)
    exact ⟨hback, fun hq => ⟨fun h => ⟨h.plain hq, h.bare hne htemp (h.plain hq)⟩, hback⟩⟩
  · intro c hc
    obtain ⟨-, -, hne, -⟩ := parseOne_names hc
    have hback : (∀ name ∈ c.names, PlainName name) → c.ComesBack := fun hplain =>
      ⟨c, parseOne_createIndexSql hne hplain, rfl, rfl, rfl, rfl⟩
    exact ⟨hback, fun hq => ⟨fun h => h.plain hq, hback⟩⟩

end

/-- A table of an integer and a text. -/
def pairTable : CreateTable where
  ifNotExists := false
  name := "t"
  columns := [{ name := "a", colType := .integer, constraints := [] }, { name := "b", colType := .text, constraints := [] }]
  temp := false

theorem pairTable_comes_back : let _ : DebugText := ⟨fun _ => ""⟩
    let _ : Unmatched := .one
    pairTable.ComesBack := by
  intro _ _
  have hplain : ∀ name ∈ pairTable.names, PlainName name := by decide +kernel
  have hparse : parseOne (lexer (createSql pairTable).toList) = .ok (.createTable pairTable) :=
    parseOne_createSql (c := pairTable) nofun rfl hplain
  refine ((definitions_come_back _).1 _ hparse).1 ⟨hplain, ?_⟩
  simp [pairTable]

/-- The table that a statement makes. -/
def Statement.table? : Res ParseError Statement → Option CreateTable
  | .ok (.createTable c) => some c
  | _ => none

def Statement.index? : Res ParseError Statement → Option CreateIndex
  | .ok (.createIndex c) => some c
  | _ => none

/-- `NOT NULL` is not written back, and the name of an index is written without its
quotation marks. -/
theorem definitions_change : let _ : DebugText := ⟨fun _ => ""⟩
    let _ : Unmatched := .one
    ¬ (∀ c, parseOne (lexer "CREATE TABLE t(a INT NOT NULL)".toList) = .ok (.createTable c) → c.ComesBack) ∧
      ¬ ∀ c, parseOne (lexer "CREATE INDEX \"i j\" ON t(a)".toList) = .ok (.createIndex c) → c.ComesBack := by
  intro _ _
  constructor
  · intro h
    have htest : (Statement.table? (parseOne (lexer "CREATE TABLE t(a INT NOT NULL)".toList))).any (fun c =>
        decide (c.names = ["t", "a"] ∧ c.temp = false ∧ ∃ d ∈ c.columns, d.constraints.isEmpty = false)) = true := by decide +kernel
    generalize parseOne (lexer "CREATE TABLE t(a INT NOT NULL)".toList) = parsed at h htest
    cases parsed with
    | error e => cases htest
    | ok stmt =>
      cases stmt with
      | createTable c =>
        obtain ⟨hnames, htemp, d, hd, hconstraint⟩ := of_decide_eq_true htest
        have hplain : ∀ name ∈ c.names, PlainName name := by
          rw [hnames]
          decide +kernel
        rw [(h c rfl).bare (List.ne_nil_of_mem hd) htemp hplain d hd] at hconstraint
        cases hconstraint
      | _ => cases htest
  · intro h
    have htest : (Statement.index? (parseOne (lexer "CREATE INDEX \"i j\" ON t(a)".toList))).any (fun c =>
        decide (c.names = ["i j", "t", "a"])) = true := by decide +kernel
    generalize parseOne (lexer "CREATE INDEX \"i j\" ON t(a)".toList) = parsed at h htest
    cases parsed with
    | error e => cases htest
    | ok stmt =>
      cases stmt with
      | createIndex c =>
        have hnames : c.names = ["i j", "t", "a"] := of_decide_eq_true htest
        have hplain := (h c rfl).plain (by rw [hnames]; decide +kernel) "i j" (by rw [hnames]; decide)
        exact absurd hplain (by decide +kernel)
      | _ => cases htest

example : createSql pairTable = "CREATE TABLE t(a INTEGER, b TEXT)" := by decide +kernel

end Sqllite
