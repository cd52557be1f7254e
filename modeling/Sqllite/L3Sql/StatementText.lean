import Sqllite.L3Sql.CatalogText

/-!
# Scripts of statements, printed and parsed

The tokens of `INSERT`, `UPDATE`, `DELETE`, `CREATE TABLE`, `CREATE INDEX`, `DROP TABLE` and the
transaction statements. A parser takes its tokens where the next word is one that can follow (`Taken`);
these facts compose as the parsers do.

Main results:
* `parseOne_print`: the tokens of a statement are parsed to the statement.
* `parse_script`: a script is parsed to its statements, in order.
-/
namespace Sqllite
open Lib Lib.Run

/-! ## Tokens of statements -/

/-- Items with commas between them. -/
def commas {α : Type} (f : α → List Token) (as : List α) : List Token := [Token.word .comma].intercalate (as.map f)

def inList {α : Type} (f : α → List Token) (as : List α) : List Token :=
  .word .lParen :: (commas f as ++ [.word .rParen])

def optionalTokens (sp : Spelling) (word : Word) : Option Expr → List Token
  | none => []
  | some e => .word word :: e.print sp 0

def ConflictAction.word : ConflictAction → Word
  | .rollback => .rollback
  | .abort => .abortKw
  | .fail => .fail
  | .ignore => .ignore
  | .replace => .replace

def conflictTokens : Option ConflictAction → List Token
  | none => []
  | some action => [.word .or, .word action.word]

def columnsTokens (sp : Spelling) (columns : List String) : List Token :=
  if columns = [] then [] else inList (fun name => [sp.name name]) columns

/-- `OR action INTO t(columns) VALUES (..), (..)`. -/
def Insert.print (sp : Spelling) (i : Insert) : List Token :=
  conflictTokens i.orConflict ++ .word .into :: sp.name i.table :: (columnsTokens sp i.columns ++
    .word .values :: commas (inList (Expr.print sp 0)) i.values)

/-- `column = e`; the parser takes no `==` here. -/
def assignmentTokens (sp : Spelling) (a : String × Expr) : List Token := sp.name a.1 :: .word .eq :: a.2.print sp 0

def Update.print (sp : Spelling) (u : Update) : List Token :=
  sp.name u.table :: .word .set :: (commas (assignmentTokens sp) u.assignments ++ optionalTokens sp .where u.whereClause)

def Delete.print (sp : Spelling) (d : Delete) : List Token :=
  .word .from :: sp.name d.table :: optionalTokens sp .where d.whereClause

def ifNotExistsTokens (b : Bool) : List Token := if b then [.word .if, .word .not, .word .exists] else []

def ColumnConstraint.print (sp : Spelling) : ColumnConstraint → List Token
  | .primaryKey autoincrement => .word .primary :: .word .key :: if autoincrement then [.word .autoincrement] else []
  | .notNull => [.word .not, .word .null]
  | .unique => [.word .unique]
  | .default e => .word .default :: e.print sp 0

def ColumnDef.print (sp : Spelling) (d : ColumnDef) : List Token :=
  sp.name d.name :: d.colType.token :: d.constraints.flatMap (ColumnConstraint.print sp)

def CreateTable.print (sp : Spelling) (c : CreateTable) : List Token :=
  ifNotExistsTokens c.ifNotExists ++ sp.name c.name :: inList (ColumnDef.print sp) c.columns

def CreateIndex.print (sp : Spelling) (c : CreateIndex) : List Token :=
  ifNotExistsTokens c.ifNotExists ++ sp.name c.name :: .word .on :: sp.name c.table ::
    inList (fun name => [sp.name name]) c.columns

def DropTable.print (sp : Spelling) (d : DropTable) : List Token :=
  (if d.ifExists then [.word .if, .word .exists] else []) ++ [sp.name d.name]

/-- The tokens of a statement, of the kinds that are printed here. -/
def Statement.print (sp : Spelling) : Statement → List Token
  | .insert i => .word .insert :: i.print sp
  | .update u => .word .update :: u.print sp
  | .delete d => .word .delete :: d.print sp
  | .createTable c => .word .create :: .word .table :: c.print sp
  | .createIndex c => .word .create :: ((if c.unique then [.word .unique] else []) ++ .word .index :: c.print sp)
  | .dropTable d => .word .drop :: .word .table :: d.print sp
  | .begin => [.word .begin]
  | .commit => [.word .commit]
  | .rollback => [.word .rollback]
  | _ => []

/-- The constraints of a column in the order in which they are parsed. -/
def constraintList (keys : List Bool) (notNull unique : Bool) (default : Option Expr) : List ColumnConstraint :=
  keys.map .primaryKey ++ (if notNull then [.notNull] else []) ++ (if unique then [.unique] else []) ++
    (default.map ColumnConstraint.default).toList

/-- A column whose constraints stand in that order. -/
def ColumnDef.Printable (d : ColumnDef) : Prop :=
  ∃ keys notNull unique default, (∀ e ∈ default, e.Printable) ∧ d.constraints = constraintList keys notNull unique default

/-- The statements that are printed: over expressions of literals, names and operators. -/
inductive Statement.Printable : Statement → Prop
  | insert {i : Insert} : i.select = none → i.values ≠ [] →
      (∀ row ∈ i.values, row ≠ [] ∧ ∀ e ∈ row, e.Printable) → Printable (.insert i)
  | update {u : Update} : u.assignments ≠ [] → (∀ a ∈ u.assignments, a.2.Printable) →
      (∀ e ∈ u.whereClause, e.Printable) → Printable (.update u)
  | delete {d : Delete} : (∀ e ∈ d.whereClause, e.Printable) → Printable (.delete d)
  | createTable {c : CreateTable} : c.temp = false → c.columns ≠ [] → (∀ d ∈ c.columns, d.Printable) →
      Printable (.createTable c)
  | createIndex {c : CreateIndex} : c.columns ≠ [] → Printable (.createIndex c)
  | dropTable (d : DropTable) : Printable (.dropTable d)
  | begin : Printable .begin
  | commit : Printable .commit
  | rollback : Printable .rollback

/-- Statements, each with a semicolon behind it. -/
def script (sp : Spelling) (stmts : List Statement) : List Token := stmts.flatMap fun s => s.print sp ++ [.word .semi]

section
variable {α : Type} {f : α → List Token} {as : List α}

theorem length_le_commas (f : α → List Token) (as : List α) : as.length ≤ (commas f as).length + 1 := by
  induction as with
  | nil => exact Nat.zero_le _
  | cons a as ih =>
    cases as with
    | nil => exact Nat.le_add_left _ _
    | cons b as =>
      simp only [commas, commas_cons_cons, List.length_append, List.length_cons] at ih ⊢
      omega

theorem mem_commas_length {a : α} (h : a ∈ as) : (f a).length ≤ (commas f as).length := by
  induction as with
  | nil => cases h
  | cons b as ih =>
    cases as with
    | nil =>
      rw [List.mem_singleton.mp h, commas, List.map_singleton, List.intercalate_singleton]
    | cons c as =>
      rw [commas, commas_cons_cons, List.length_append, List.length_cons]
      rcases List.mem_cons.mp h with rfl | h
      · omega
      · have := ih h
        rw [commas] at this
        omega

theorem inList_length : (inList f as).length = (commas f as).length + 2 := by simp [inList]

end

namespace Parser

/-! ## What a parser takes -/

/-- If the next token is a word, it is one of these. -/
def Follow (ws : List Word) (r : List Token) : Prop := ∀ w, r.head? = some (.word w) → w ∈ ws

/-- The parser takes `w` and gives `a` where a word of `ws` follows. -/
def Taken {α : Type} (ws : List Word) (m : ParserM α) (w : List Token) (a : α) : Prop :=
  ∀ ⦃s r⦄, Follow ws r → s.left = w ++ r → m s = .ok a (s.skip w.length)

section
variable {α β : Type} {ws vs : List Word} {m : ParserM α} {f : α → ParserM β} {v w r : List Token} {a : α} {b : β}
  {sp : Spelling} {n : Nat}

theorem follow_word {u : Word} (h : u ∈ ws) : Follow ws (.word u :: r) := by
  rintro w hw
  cases hw
  exact h

theorem follow_nil : Follow ws [] := by
  intro w hw
  cases hw

theorem follow_name (name : String) : Follow ws (sp.name name :: r) :=
  fun w hw => absurd (Option.some.inj hw) (sp.name_not_word name w)

theorem Follow.miss (h : Follow ws r) {u : Word} (hu : u ∉ ws) : r.head? ≠ some (.word u) := fun hw => hu (h u hw)

theorem Follow.mono (h : Follow ws r) (hws : ws ⊆ vs) : Follow vs r := fun w hw => hws (h w hw)

theorem Follow.stops (h : Follow ws r) (hws : ∀ w ∈ ws, w.level = none) : Stops 0 r := by
  intro w hw k hk
  rw [hws w (h w hw)] at hk
  cases hk

theorem Taken.mono (h : Taken vs m w a) (hws : ws ⊆ vs) : Taken ws m w a := fun _ _ hr hs => h (hr.mono hws) hs

theorem Taken.pure : Taken ws (Pure.pure a : ParserM α) [] a := fun _ _ _ _ => rfl

theorem Taken.bind (h : Taken vs m v a) (hf : Taken ws (f a) w b) (hw : ∀ r, Follow ws r → Follow vs (w ++ r)) :
    Taken ws (m >>= f) (v ++ w) b := by
  intro s r hr hs
  rw [List.append_assoc] at hs
  rw [bind_ok (h (hw r hr) hs), hf hr (left_behind hs), skip_skip, List.length_append]

theorem Taken.map (h : Taken ws m w a) {g : α → β} : Taken ws (m >>= fun x => Pure.pure (g x)) w (g a) :=
  fun _ _ hr hs => bind_ok (h hr hs) _

theorem Taken.word {u : Word} {m : ParserM α} (h : Taken ws m w a) :
    Taken ws (do expect u; m) (.word u :: w) a := by
  intro s r hr hs
  rw [bind_ok (expect_hit hs), h hr (left_next hs), skip_skip, List.length_cons, Nat.add_comm]

theorem Taken.name {name : String} {f : String → ParserM β} (h : Taken ws (f name) w b) :
    Taken ws (parseIdent >>= f) (sp.name name :: w) b := by
  intro s r hr hs
  rw [bind_ok (parseIdent_left hs (sp.name_eq name)), h hr (left_next hs), skip_skip, List.length_cons, Nat.add_comm]

theorem Taken.hit {u : Word} {X Y : ParserM α} (h : Taken ws X w a) :
    Taken ws (do if ← matchToken u then X else Y : ParserM α) (.word u :: w) a := by
  intro s r hr hs
  rw [branch_hit hs, h hr (left_next hs), skip_skip, List.length_cons, Nat.add_comm]

theorem Taken.miss {u : Word} {X Y : ParserM α} (h : Taken ws Y w a)
    (hw : ∀ r, Follow ws r → (w ++ r).head? ≠ some (.word u)) :
    Taken ws (do if ← matchToken u then X else Y : ParserM α) w a := by
  intro s r hr hs
  rw [branch_miss (hs ▸ hw r hr), h hr hs]

theorem Taken.other {u u' : Word} {X Y : ParserM α} (h : Taken ws Y (.word u' :: w) a) (hu : u' ≠ u) :
    Taken ws (do if ← matchToken u then X else Y : ParserM α) (.word u' :: w) a :=
  h.miss fun _ _ hw => hu (Token.word.inj (Option.some.inj hw))

theorem taken_ident (name : String) : Taken ws parseIdent [sp.name name] name :=
  fun _ _ _ hs => parseIdent_left hs (sp.name_eq name)

/-- A word that may be left out. -/
theorem taken_flag {u : Word} (b : Bool) (hu : u ∉ ws) : Taken ws (matchToken u) (if b then [.word u] else []) b := by
  cases b with
  | true => exact fun _ _ _ hs => matchToken_hit hs
  | false => exact fun _ _ hr hs => matchToken_miss (hs ▸ hr.miss hu)

theorem Follow.flag {u : Word} {b : Bool} (h : Follow ws r) : Follow (u :: ws) ((if b then .word u :: w else []) ++ r) := by
  cases b with
  | true => exact follow_word List.mem_cons_self
  | false => exact h.mono (List.subset_cons_self _ _)

theorem Follow.optional {u : Word} {e : Option Expr} (h : Follow ws r) : Follow (u :: ws) (optionalTokens sp u e ++ r) := by
  cases e with
  | some e => exact follow_word List.mem_cons_self
  | none => exact h.mono (List.subset_cons_self _ _)

/-- Items with commas between them, in front of another word. -/
theorem Taken.commas {toks : α → List Token} {as : List α} (hne : as ≠ [])
    (h : ∀ a ∈ as, Taken (.comma :: ws) m (toks a) a) (hcomma : Word.comma ∉ ws) (hn : as.length ≤ n) :
    Taken ws (commaList m n) (commas toks as) as := by
  induction as generalizing n with
  | nil => exact absurd rfl hne
  | cons a as ih =>
    rw [List.length_cons] at hn
    obtain ⟨n, rfl⟩ : ∃ k, n = k + 1 := ⟨n - 1, by omega⟩
    rw [List.forall_mem_cons] at h
    intro s r hr hs
    cases as with
    | nil =>
      rw [Sqllite.commas, List.map_singleton, List.intercalate_singleton] at hs ⊢
      have hbehind : (s.skip (toks a).length).left = r := left_behind hs
      rw [commaList, bind_ok (h.1 (hr.mono (List.subset_cons_self _ _)) hs), branch_miss (hbehind ▸ hr.miss hcomma)]
      rfl
    | cons b as =>
      have hrest := ih (List.cons_ne_nil _ _) h.2 (n := n) (by omega)
      rw [Sqllite.commas, commas_cons_cons, ← Sqllite.commas] at hs ⊢
      rw [List.append_assoc, List.cons_append] at hs
      have hbehind := left_behind hs
      rw [commaList, bind_ok (h.1 (follow_word List.mem_cons_self) hs), branch_hit hbehind,
        bind_ok (hrest hr (left_next hbehind)), skip_skip, skip_skip, List.length_append, List.length_cons]
      rw [Nat.add_comm (Sqllite.commas toks (b :: as)).length]
      rfl

section
variable {toks : α → List Token} {as : List α}

theorem Taken.inList (hne : as ≠ []) (h : ∀ a ∈ as, Taken [.comma, .rParen] m (toks a) a) (hn : as.length ≤ n) :
    Taken ws (parseList m n) (inList toks as) as :=
  .word ((Taken.commas hne h (by decide) hn).bind (.word .pure) fun _ _ => follow_word List.mem_cons_self)

end

/-! ## Statements -/

theorem taken_conflict (c : Option ConflictAction) : Taken [.into] parseOrConflict (conflictTokens c) c := by
  cases c with
  | none => exact Taken.pure.miss fun r hr => hr.miss (by decide)
  | some action =>
    refine .hit ?_
    cases action
    all_goals
      repeat refine Taken.other ?_ (by decide)
      exact .hit .pure

theorem taken_ifNotExists (b : Bool) (hws : Word.if ∉ ws) : Taken ws parseIfNotExists (ifNotExistsTokens b) b := by
  cases b with
  | true => exact .hit (.word (.word .pure))
  | false => exact Taken.pure.miss fun r hr => hr.miss hws

theorem taken_dropTable (d : DropTable) : Taken [.semi] parseDropTable (d.print sp) d := by
  obtain ⟨ifExists, name⟩ := d
  have hflag : Taken [] (do
      if ← matchToken .if then do
        expect .exists
        pure true
      else pure false : ParserM Bool) (if ifExists then [.word .if, .word .exists] else []) ifExists := by
    cases ifExists with
    | true => exact .hit (.word .pure)
    | false => exact Taken.pure.miss fun r hr => hr.miss List.not_mem_nil
  exact hflag.bind (taken_ident name).map fun _ _ => follow_name name

theorem Follow.keys {keys : List Bool} (h : Follow ws r) :
    Follow (.primary :: ws) ((keys.map ColumnConstraint.primaryKey).flatMap (ColumnConstraint.print sp) ++ r) := by
  cases keys with
  | nil => exact h.mono (List.subset_cons_self _ _)
  | cons autoincrement keys => exact follow_word List.mem_cons_self

/-- The loop over `PRIMARY KEY`, in front of a word that is none. -/
theorem taken_keys {keys : List Bool} (hn : keys.length < n) :
    Taken [.not, .unique, .default, .comma, .rParen] (parsePrimaryKeys n)
      ((keys.map ColumnConstraint.primaryKey).flatMap (ColumnConstraint.print sp)) (keys.map .primaryKey) := by
  obtain ⟨k, rfl⟩ : ∃ j, n = j + 1 := ⟨n - 1, by omega⟩
  induction keys generalizing k with
  | nil => exact Taken.pure.miss fun r hr => hr.miss (by decide)
  | cons autoincrement keys ih =>
    rw [List.length_cons] at hn
    obtain ⟨k, rfl⟩ : ∃ j, k = j + 1 := ⟨k - 1, by omega⟩
    have hrest := ih k (by omega)
    have hflag : Taken [.primary, .not, .unique, .default, .comma, .rParen] (matchToken .autoincrement) _ autoincrement :=
      taken_flag autoincrement (by decide)
    exact .hit (.word (hflag.bind hrest.map fun _ hr => hr.keys))

theorem length_le_keys (keys : List Bool) :
    keys.length ≤ ((keys.map ColumnConstraint.primaryKey).flatMap (ColumnConstraint.print sp)).length := by
  induction keys with
  | nil => exact Nat.zero_le _
  | cons autoincrement keys ih =>
    rw [List.map_cons, List.flatMap_cons, List.length_append, List.length_cons, ColumnConstraint.print, List.length_cons]
    omega

theorem constraintList_tokens (keys : List Bool) (notNull unique : Bool) (default : Option Expr) :
    (constraintList keys notNull unique default).flatMap (ColumnConstraint.print sp) =
      (keys.map ColumnConstraint.primaryKey).flatMap (ColumnConstraint.print sp) ++
        ((if notNull then [.word .not, .word .null] else []) ++
          ((if unique then [.word .unique] else []) ++ optionalTokens sp .default default)) := by
  simp only [constraintList, List.flatMap_append, List.append_assoc]
  congr 2
  · cases notNull <;> rfl
  · congr 1
    · cases unique <;> rfl
    · cases default with
      | none => rfl
      | some e => exact List.append_nil _

theorem taken_createIndex {c : CreateIndex} (hne : c.columns ≠ []) (hn : (c.print sp).length < n) :
    Taken [.semi] (parseCreateIndex c.unique n) (c.print sp) c := by
  simp only [CreateIndex.print, List.length_append, List.length_cons, inList_length] at hn
  have hlen := length_le_commas (fun name => [sp.name name]) c.columns
  have hcolumns : Taken [.semi] (parseList parseIdent n) (inList (fun name => [sp.name name]) c.columns) c.columns :=
    .inList hne (fun name _ => taken_ident name) (by omega)
  have hflag : Taken [] parseIfNotExists (ifNotExistsTokens c.ifNotExists) c.ifNotExists :=
    taken_ifNotExists c.ifNotExists List.not_mem_nil
  exact hflag.bind (.name (.word (.name hcolumns.map))) fun _ _ => follow_name c.name

theorem check_miss {s : Parser} {u : Word} (h : s.left.head? ≠ some (.word u)) : check u s = .ok false s := by
  rw [check, bind_ok (currentToken_left s)]
  cases hl : s.left.head? with
  | none => rfl
  | some t =>
    have hkind : t.kind ≠ .word u := fun hk => h (hl.trans (congrArg some (kind_eq_word.mp hk)))
    show EStateM.Result.ok (decide (t.kind = .word u)) s = _
    rw [decide_eq_false hkind]

theorem isAtEnd_left {s : Parser} : s.isAtEnd = decide (s.left = []) := by
  unfold isAtEnd left
  simp

theorem skipSemicolons_one {s : Parser} (hs : s.left = .word .semi :: r) (hr : r.head? ≠ some (.word .semi)) :
    skipSemicolons (n + 2) s = .ok () (s.skip 1) := by
  rw [skipSemicolons, bind_ok (check_left .semi hs), decide_eq_true (kind_eq_word.mpr rfl), if_pos rfl, advance_bind hs,
    skipSemicolons, bind_ok (check_miss (by rwa [left_next hs]))]
  rfl

theorem script_head {stmts : List Statement} (h : ∀ stmt ∈ stmts, stmt.Printable) :
    (script sp stmts).head? ≠ some (.word .semi) := by
  cases stmts with
  | nil => exact nofun
  | cons stmt stmts =>
    have hstmt := h stmt List.mem_cons_self
    cases hstmt <;> simp [script, Statement.print]

theorem length_le_script (sp : Spelling) (stmts : List Statement) : stmts.length ≤ (script sp stmts).length := by
  induction stmts with
  | nil => exact Nat.zero_le _
  | cons stmt stmts ih =>
    rw [script] at ih
    rw [script, List.flatMap_cons, List.length_append, List.length_append, List.length_cons, List.length_singleton]
    omega

variable [DebugText]

/-- An expression in front of a word that is no operator. -/
theorem taken_expr {e : Expr} (he : e.Printable) (hws : ∀ w ∈ ws, w.level = none) (hn : (e.print sp 0).length < n) :
    Taken ws (parseExpr n) (e.print sp 0) e := by
  obtain ⟨m, rfl⟩ : ∃ k, n = k + 1 := ⟨n - 1, by omega⟩
  exact fun s r hr hs => (printed_takes (he.printed 0) (Nat.zero_le 7)).1 (n := m) (u := m + 1) (by omega) hn hs (hr.stops hws)

theorem taken_optional {u : Word} {e : Option Expr} (he : ∀ x ∈ e, x.Printable) (hws : ∀ w ∈ ws, w.level = none) (hu : u ∉ ws)
    (hn : (optionalTokens sp u e).length ≤ n) : Taken ws (optional u (parseExpr n)) (optionalTokens sp u e) e := by
  cases e with
  | none => exact Taken.pure.miss fun r hr => hr.miss hu
  | some e => exact .hit (taken_expr (he e rfl) hws hn).map

theorem taken_insert {i : Insert} (hselect : i.select = none) (hne : i.values ≠ [])
    (hrows : ∀ row ∈ i.values, row ≠ [] ∧ ∀ e ∈ row, e.Printable) (hn : (i.print sp).length < n) :
    Taken [.semi] (parseInsert n) (i.print sp) i := by
  obtain ⟨orConflict, table, columns, values, select⟩ := i
  subst hselect
  simp only [Insert.print, List.length_append, List.length_cons] at hn
  have hvalues : Taken [.semi] (commaList (parseList (parseExpr n) n) n) (commas (inList (Expr.print sp 0)) values) values := by
    refine .commas hne (fun row hrow => ?_) (by decide) ?_
    · have hrow' := mem_commas_length (f := inList (Expr.print sp 0)) hrow
      rw [inList_length] at hrow'
      refine .inList (hrows row hrow).1 (fun e he => ?_) ?_
      · have he' := mem_commas_length (f := Expr.print sp 0) he
        exact taken_expr ((hrows row hrow).2 e he) (by decide) (by omega)
      · have hlen := length_le_commas (Expr.print sp 0) row
        omega
    · have hlen := length_le_commas (inList (Expr.print sp 0)) values
      omega
  have hcolumns : Taken [.values] (do
      if ← matchToken .lParen then do
        let columns ← commaList parseIdent n
        expect .rParen
        pure columns
      else pure [] : ParserM (List String)) (columnsTokens sp columns) columns := by
    unfold columnsTokens at hn ⊢
    split at hn <;> split
    · next h _ => exact h ▸ Taken.pure.miss fun r hr => hr.miss (by decide)
    · contradiction
    · contradiction
    · next hcols _ =>
      have hlen := length_le_commas (fun name => [sp.name name]) columns
      rw [inList_length] at hn
      have hnames : Taken [.rParen] (commaList parseIdent n) (commas (fun name => [sp.name name]) columns) columns :=
        .commas hcols (fun name _ => taken_ident name) (by decide) (by omega)
      exact .hit (hnames.bind (.word .pure) fun _ _ => follow_word List.mem_cons_self)
  refine (taken_conflict orConflict).bind (.word (.name ?_)) fun _ _ => follow_word List.mem_cons_self
  exact hcolumns.bind (.word hvalues.map) fun _ _ => follow_word List.mem_cons_self

theorem taken_assignment {a : String × Expr} (ha : a.2.Printable) (hws : ∀ w ∈ ws, w.level = none)
    (hn : (assignmentTokens sp a).length < n) : Taken ws (parseAssignment n) (assignmentTokens sp a) a := by
  unfold assignmentTokens at hn
  rw [List.length_cons, List.length_cons] at hn
  exact .name (.word (taken_expr ha hws (by omega)).map)

theorem taken_update {u : Update} (hne : u.assignments ≠ []) (hassign : ∀ a ∈ u.assignments, a.2.Printable)
    (hwhere : ∀ e ∈ u.whereClause, e.Printable) (hn : (u.print sp).length < n) :
    Taken [.semi] (parseUpdate n) (u.print sp) u := by
  simp only [Update.print, List.length_append, List.length_cons] at hn
  have hlen := length_le_commas (assignmentTokens sp) u.assignments
  have hassigns : Taken [.where, .semi] (commaList (parseAssignment n) n) (commas (assignmentTokens sp) u.assignments)
      u.assignments := by
    refine .commas hne (fun a ha => ?_) (by decide) (by omega)
    have ha' := mem_commas_length (f := assignmentTokens sp) ha
    exact taken_assignment (hassign a ha) (by decide) (by omega)
  refine .name (.word (hassigns.bind (taken_optional hwhere (by decide) (by decide) (by omega)).map fun r hr => ?_))
  exact hr.optional

theorem taken_delete {d : Delete} (hwhere : ∀ e ∈ d.whereClause, e.Printable) (hn : (d.print sp).length < n) :
    Taken [.semi] (parseDelete n) (d.print sp) d := by
  simp only [Delete.print, List.length_cons] at hn
  exact .word (.name (taken_optional hwhere (by decide) (by decide) (by omega)).map)

theorem taken_column {d : ColumnDef} (hd : d.Printable) (hn : (d.print sp).length < n) :
    Taken [.comma, .rParen] (parseColumnDef n) (d.print sp) d := by
  obtain ⟨name, colType, _⟩ := d
  obtain ⟨keys, notNull, unique, default, hdefault, rfl⟩ := hd
  rw [ColumnDef.print, constraintList_tokens, List.length_cons, List.length_cons, List.length_append, List.length_append,
    List.length_append] at hn
  rw [ColumnDef.print, constraintList_tokens]
  have hkeys : keys.length ≤ ((keys.map ColumnConstraint.primaryKey).flatMap (ColumnConstraint.print sp)).length :=
    length_le_keys keys
  have hnotNull : Taken [.unique, .default, .comma, .rParen] (do
      if ← matchToken .not then do
        expect .null
        pure [.notNull]
      else pure [] : ParserM (List ColumnConstraint)) (if notNull then [.word .not, .word .null] else [])
      (if notNull then [.notNull] else []) := by
    cases notNull with
    | true => exact .hit (.word .pure)
    | false => exact Taken.pure.miss fun r hr => hr.miss (by decide)
  have htype : Taken [.primary, .not, .unique, .default, .comma, .rParen] parseColumnType [colType.token] colType :=
    fun _ _ _ hs => parseColumnType_left hs
  have hdef : Taken [.comma, .rParen] (optional .default (parseExpr n)) (optionalTokens sp .default default) default :=
    taken_optional hdefault (by decide) (by decide) (by omega)
  have huniq : Taken [.default, .comma, .rParen] (matchToken .unique) (if unique then [.word .unique] else []) unique :=
    taken_flag unique (by decide)
  -- the constraints from the last to the first
  refine .name (htype.bind ((taken_keys (by omega)).bind
    (hnotNull.bind (huniq.bind hdef.map fun _ hr => hr.optional) fun _ hr => ?_) fun _ hr => ?_) fun _ hr => ?_)
  · rw [List.append_assoc]
    exact hr.optional.flag
  · rw [List.append_assoc, List.append_assoc]
    exact hr.optional.flag.flag
  · rw [List.append_eq, List.append_assoc, List.append_assoc, List.append_assoc]
    exact hr.optional.flag.flag.keys

theorem taken_createTable {c : CreateTable} (htemp : c.temp = false) (hne : c.columns ≠ [])
    (hcolumns : ∀ d ∈ c.columns, d.Printable) (hn : (c.print sp).length < n) :
    Taken [.semi] (parseCreateTable n) (c.print sp) c := by
  obtain ⟨ifNotExists, name, columns, temp⟩ := c
  subst htemp
  simp only [CreateTable.print, List.length_append, List.length_cons, inList_length] at hn
  have hlen := length_le_commas (ColumnDef.print sp) columns
  have hlist : Taken [.semi] (parseList (parseColumnDef n) n) (inList (ColumnDef.print sp) columns) columns := by
    refine .inList hne (fun d hd => ?_) (by omega)
    have hd' := mem_commas_length (f := ColumnDef.print sp) hd
    exact taken_column (hcolumns d hd) (by omega)
  have hflag : Taken [] parseIfNotExists (ifNotExistsTokens ifNotExists) ifNotExists :=
    taken_ifNotExists ifNotExists List.not_mem_nil
  exact hflag.bind (.name hlist.map) fun _ _ => follow_name name

/-- In front of a semicolon, or at the end, the tokens of a statement are taken as the statement. -/
theorem taken_statement {stmt : Statement} (h : stmt.Printable) (hn : (stmt.print sp).length < n) :
    Taken [.semi] (parseStatement n) (stmt.print sp) stmt := by
  cases h with
  | insert hselect hne hrows =>
    rw [Statement.print, List.length_cons] at hn
    repeat refine Taken.other ?_ (by decide)
    exact .hit (taken_insert hselect hne hrows (by omega)).map
  | update hne hassign hwhere =>
    rw [Statement.print, List.length_cons] at hn
    repeat refine Taken.other ?_ (by decide)
    exact .hit (taken_update hne hassign hwhere (by omega)).map
  | delete hwhere =>
    rw [Statement.print, List.length_cons] at hn
    repeat refine Taken.other ?_ (by decide)
    exact .hit (taken_delete hwhere (by omega)).map
  | @createTable c htemp hne hcolumns =>
    rw [Statement.print, List.length_cons, List.length_cons] at hn
    have htable : Taken [.semi] (do
        expect .table
        let c ← parseCreateTable n
        pure (.createTable c) : ParserM Statement) (.word .table :: c.print sp) (.createTable c) :=
      .word (taken_createTable htemp hne hcolumns (by omega)).map
    have hnone : Taken [.table] (matchToken .unique) _ false := taken_flag false (by decide)
    have hcreate : Taken [.semi] (parseCreate n) _ (.createTable c) :=
      hnone.bind (htable.other (by decide)) fun _ _ => follow_word List.mem_cons_self
    repeat refine Taken.other ?_ (by decide)
    exact .hit hcreate
  | @createIndex c hne =>
    simp only [Statement.print, List.length_cons, List.length_append] at hn
    have hindex : Taken [.semi] (do
        if ← matchToken .index then do
          let c ← parseCreateIndex c.unique n
          pure (.createIndex c)
        else do
          expect .table
          let c ← parseCreateTable n
          pure (.createTable c) : ParserM Statement) (.word .index :: c.print sp) (.createIndex c) :=
      .hit (taken_createIndex hne (by omega)).map
    have hunique : Taken [.index] (matchToken .unique) (if c.unique then [.word .unique] else []) c.unique :=
      taken_flag c.unique (by decide)
    have hcreate : Taken [.semi] (parseCreate n) _ (.createIndex c) :=
      hunique.bind hindex fun _ _ => follow_word List.mem_cons_self
    repeat refine Taken.other ?_ (by decide)
    exact .hit hcreate
  | dropTable d =>
    have hdrop : Taken [.semi] parseDrop (.word .table :: d.print sp) (.dropTable d) := .word (taken_dropTable d).map
    repeat refine Taken.other ?_ (by decide)
    exact .hit hdrop
  -- a statement of one word
  | _ =>
    repeat refine Taken.other ?_ (by decide)
    exact .hit .pure

/-! ## Scripts -/

theorem parseStatements_script {stmts : List Statement} {k : Nat} {s : Parser} (h : ∀ stmt ∈ stmts, stmt.Printable)
    (hk : stmts.length < k) (hn : (script sp stmts).length < n) (hs : s.left = script sp stmts) :
    ∃ s', parseStatements n k s = .ok stmts s' := by
  induction stmts generalizing k s with
  | nil =>
    obtain ⟨j, rfl⟩ : ∃ j, k = j + 1 := ⟨k - 1, by omega⟩
    refine ⟨s, ?_⟩
    rw [parseStatements, bind_ok (get_apply s), isAtEnd_left, hs]
    rfl
  | cons stmt stmts ih =>
    have hcons : script sp (stmt :: stmts) = stmt.print sp ++ .word .semi :: script sp stmts := by simp [script]
    rw [hcons] at hs hn
    rw [List.length_append, List.length_cons] at hn
    rw [List.length_cons] at hk
    obtain ⟨j, rfl⟩ : ∃ j, k = j + 1 := ⟨k - 1, by omega⟩
    rw [List.forall_mem_cons] at h
    have hstmt := taken_statement h.1 (n := n) (by omega) (follow_word List.mem_cons_self) hs
    have hsemi := left_behind hs
    obtain ⟨s', hrest⟩ := ih h.2 (k := j) (by omega) (by omega) (left_next hsemi)
    refine ⟨s', ?_⟩
    have hmore : s.isAtEnd = false := by
      rw [isAtEnd_left, hs]
      exact decide_eq_false (List.append_ne_nil_of_right_ne_nil _ (List.cons_ne_nil _ _))
    have hskip : skipSemicolons n (s.skip (stmt.print sp).length) =
        .ok () ((s.skip (stmt.print sp).length).skip 1) := by
      obtain ⟨m, rfl⟩ : ∃ m, n = m + 2 := ⟨n - 2, by omega⟩
      exact skipSemicolons_one hsemi (script_head h.2)
    rw [parseStatements, bind_ok (get_apply s), hmore, if_neg Bool.false_ne_true, bind_ok hstmt,
      bind_ok hskip, bind_ok hrest]
    rfl

end

end Parser

section
variable [DebugText]

/-- The tokens of a statement, of any size and with any quotation of its names, are parsed to it. -/
theorem parseOne_print (sp : Spelling) (stmt : Statement) (h : stmt.Printable) (items : List (Option SpannedToken))
    (hitems : (tokenize items).map (·.token) = stmt.print sp) : parseOne items = .ok stmt := by
  have hleft : (Parser.new (tokenize items)).left = stmt.print sp ++ [] := (List.append_nil _).symm ▸ hitems
  have hlen : (stmt.print sp).length < (tokenize items).length + 1 := by
    rw [← hitems, List.length_map]
    exact Nat.lt_succ_self _
  exact outcome_ok (Parser.taken_statement h hlen Parser.follow_nil hleft)

/-- A script of any number of statements is parsed to these statements, in order. -/
theorem parse_script (sp : Spelling) (stmts : List Statement) (h : ∀ stmt ∈ stmts, stmt.Printable)
    (items : List (Option SpannedToken)) (hitems : (tokenize items).map (·.token) = script sp stmts) :
    parse items = .ok stmts := by
  have hlen : (tokenize items).length = (script sp stmts).length := by rw [← hitems, List.length_map]
  have hcount := Parser.length_le_script sp stmts
  have hleft : (Parser.new (tokenize items)).left = script sp stmts := hitems
  obtain ⟨s', hrun⟩ := Parser.parseStatements_script (n := (tokenize items).length + 1) (k := (tokenize items).length + 1) h
    (by omega) (by omega) hleft
  exact outcome_ok hrun

end

/-- `DELETE FROM t WHERE a = 1; COMMIT;`. -/
theorem parse_script_delete : let _ : DebugText := ⟨fun _ => ""⟩
    parse (([.word .delete, .word .from, .ident "t", .word .where, .ident "a", .word .eq, .integerLit 1, .word .semi,
      .word .commit, .word .semi] : List Token).map fun t => some ⟨t, 0, 0⟩) =
      .ok [.delete ⟨"t", some (.binaryOp .eq (.ident "a") (.integer 1))⟩, .commit] := by
  intro _
  have hdelete : ∀ e ∈ some (Expr.binaryOp .eq (.ident "a") (.integer 1)), e.Printable := by
    rintro e ⟨⟩
    exact .binaryOp rfl (.ident "a") (.integer 1)
  refine parse_script Parser.plain _ (fun stmt hstmt => ?_) _ rfl
  rcases List.mem_cons.mp hstmt with rfl | hstmt
  · exact .delete hdelete
  · rw [List.mem_singleton.mp hstmt]
    exact .commit

end Sqllite
