import Sqllite.L3Sql.ParserMoves
import Sqllite.L3Sql.Spelling
import Sqllite.L3Sql.ExprText

/-!
# Names and their tokens

The names in a statement that defines a table or an index are names of tokens. In a text
without quotation marks these are identifiers that are not keywords.

* `plainName_of_mem`: the names among the tokens of a text.
* `parseOne_names`: the names of what is parsed.
-/
namespace Sqllite
open Lib Lib.Run

/-- A name that the lexer reads as itself without quotation marks. -/
def PlainName (name : String) : Prop :=
  isIdentText name.toList = true ∧ keyword? name.toList = none

instance (name : String) : Decidable (PlainName name) := instDecidableAnd

theorem PlainName.spelled {name : String} (h : PlainName name) : Spelled (.ident name) name.toList := by
  have hspelled := Spelled.ident h.1
  rw [identToken, h.2, String.ofList_toList] at hspelled
  exact hspelled

/-- A text without quotation marks of names. -/
def Unmarked (cs : List Char) : Prop := '"' ∉ cs ∧ '\x60' ∉ cs

instance (cs : List Char) : Decidable (Unmarked cs) := instDecidableAnd

section
variable {cs : List Char} {k : Nat} {t : Token} {name : String}

theorem identScan_take (h : identScan cs = some k) : isIdentText (cs.take k) = true ∧ k ≤ cs.length := by
  unfold identScan at h
  split at h
  · rename_i c cs
    split at h
    · rename_i hc
      have hprefix := List.takeWhile_prefix (l := cs) identChar
      rw [← Option.some.inj h, List.take_succ_cons, ← List.prefix_iff_eq_take.mp hprefix, isIdentText, Bool.and_eq_true]
      exact ⟨⟨hc, List.all_takeWhile⟩, Nat.succ_le_succ hprefix.length_le⟩
    · cases h
  · cases h

/-- The text of a quoted name begins with its mark. -/
theorem quotedScan_mem {q : Char} (h : quotedScan q cs = some k) : q ∈ cs := by
  unfold quotedScan at h
  split at h
  · split at h
    · rename_i hc
      rw [hc]
      exact List.mem_cons_self
    · cases h
  · cases h

/-- The one rule that reads a name where there is no mark. -/
theorem named_value {rule : Munch.Rule Char Lexeme} (hq : Unmarked cs) (ht : t.Names name) (hrule : rule ∈ valueRules)
    (h : rule cs = some (k, .token t)) : identScan cs = some k ∧ t = .ident (.ofList (cs.take k)) := by
  have hread : ∀ {o : Option Token}, Lexeme.token t = .ofRead o → o = some t := by
    intro o ho
    cases o with
    | none => cases ho
    | some u =>
      cases ho
      rfl
  simp only [valueRules, List.mem_cons, List.not_mem_nil, or_false] at hrule
  rcases hrule with rfl | rfl | rfl | rfl | rfl | rfl | rfl | rfl | rfl | rfl | rfl
  case inr.inr.inr.inr.inr.inr.inl =>
    obtain ⟨hscan, he⟩ := lexRule_scan h
    exact ⟨hscan, Lexeme.token.inj he⟩
  case inr.inr.inr.inl => exact absurd (quotedScan_mem (lexRule_scan h).1) hq.1
  case inr.inr.inr.inr.inl => exact absurd (quotedScan_mem (lexRule_scan h).1) hq.2
  case inl | inr.inl | inr.inr.inr.inr.inr.inl =>
    obtain ⟨x, -, rfl⟩ := Option.map_eq_some_iff.mp (hread (lexRule_scan h).2)
    rcases ht with ht | ht | ht <;> cases ht
  all_goals
    obtain rfl := Lexeme.token.inj (lexRule_scan h).2
    rcases ht with ht | ht | ht <;> cases ht

/-- What is taken as a name where there is no mark. -/
theorem named_taken (hq : Unmarked cs) (ht : t.Names name) (h : Munch.taken tokenRules cs = some (k, .token t)) :
    PlainName name := by
  rw [taken_eq, ← List.append_assoc] at h
  have hskip : (k, Lexeme.token t) ∉ matched skipRules cs := by
    intro hmem
    obtain ⟨rule, hrule, hr⟩ := List.mem_filterMap.mp hmem
    obtain ⟨scan, -, rfl⟩ := List.mem_map.mp hrule
    cases (lexRule_scan hr).2
  have hword : ∀ {same : Char → Char → Bool} {words : List (List Char × Word)},
      (k, Lexeme.token t) ∉ matched (words.map (wordRule same)) cs := by
    intro same words hmem
    obtain ⟨w, -, -, he⟩ := mem_matched_words.mp hmem
    obtain rfl := Lexeme.token.inj (Prod.mk.inj he).2
    exact ht.not_word _ rfl
  have hlt := Munch.lt_of_longest h (List.mem_append.not.mpr (not_or.mpr ⟨hskip, hword⟩))
  have hmem := Munch.longest_mem h
  rw [List.mem_append, List.mem_append, List.mem_append] at hmem
  have hvalue := (hmem.resolve_left (not_or.mpr ⟨hskip, hword⟩)).resolve_left hword
  obtain ⟨rule, hrule, hr⟩ := List.mem_filterMap.mp hvalue
  obtain ⟨hscan, rfl⟩ := named_value hq ht hrule hr
  obtain rfl : name = .ofList (cs.take k) := by
    rcases ht with ht | ht | ht <;> cases ht
    rfl
  rw [PlainName, String.toList_ofList]
  refine ⟨(identScan_take hscan).1, ?_⟩
  -- a keyword of the same length stands in front of the identifier
  by_contra hkeyword
  obtain ⟨w, hw⟩ := Option.ne_none_iff_exists'.mp hkeyword
  obtain ⟨entry, hfind, rfl⟩ := Option.map_eq_some_iff.mp hw
  have hentry := List.mem_of_find?_eq_some hfind
  have htest := List.find?_some hfind
  rw [Bool.and_eq_true, beq_iff_eq] at htest
  have hbegins : beginsWith anyCase entry.1 cs = true := by
    have := beginsWith_extend (r := cs.drop k) htest.2
    rwa [List.take_append_drop] at this
  have hless := hlt _ (List.mem_append_right _ (mem_matched_words.mpr ⟨entry, hentry, hbegins, rfl⟩))
  have hlen := htest.1
  rw [List.length_take] at hlen
  have hle := (identScan_take hscan).2
  dsimp only at hless
  omega

variable [Unmatched]

/-- The names among the tokens of a text without marks. -/
theorem plainName_of_mem (hq : Unmarked cs) (ht : t.Names name) (h : t ∈ tokensOf cs) : PlainName name := by
  rw [tokensOf_pieces, List.mem_filterMap] at h
  obtain ⟨⟨u, b⟩, hpiece, hb⟩ := h
  cases b with
  | none => cases hb
  | some b =>
    cases b with
    | token x =>
      obtain rfl : x = t := Option.some.inj hb
      obtain ⟨cs', k, hsuffix, htaken, -⟩ := Munch.mem_pieces hpiece
      exact named_taken ⟨fun h => hq.1 (hsuffix.subset h), fun h => hq.2 (hsuffix.subset h)⟩ ht htaken
    | _ => cases hb

end

/-- `name` is the name of one of the tokens. -/
def NamedIn (T : List SpannedToken) (name : String) : Prop := ∃ t ∈ T.map (·.token), t.Names name

/-- The names in a statement that defines a table or an index; it has a column. -/
def Statement.NamesIn (T : List SpannedToken) : Statement → Prop
  | .createTable c => NamedIn T c.name ∧ c.columns ≠ [] ∧ c.temp = false ∧ ∀ d ∈ c.columns, NamedIn T d.name
  | .createIndex c => NamedIn T c.name ∧ NamedIn T c.table ∧ c.columns ≠ [] ∧ ∀ x ∈ c.columns, NamedIn T x
  | _ => True

namespace Parser

/-- What `m` gives from the tokens `T`. -/
def Gives {α : Type} (T : List SpannedToken) (m : ParserM α) (φ : α → Prop) : Prop :=
  Hoare (Within T 0) m (fun a s => Within T 0 s ∧ φ a) fun _ => True

section
variable {α β : Type} {T : List SpannedToken} {m : ParserM α} {φ : α → Prop} {ψ : β → Prop}

theorem Moves.gives (h : Moves m) : Gives T m fun _ => True :=
  (h T 0).weaken (fun _ h => h) (fun _ _ h => ⟨h, trivial⟩) fun _ _ => trivial

theorem Gives.pure {a : α} (h : φ a) : Gives T (Pure.pure a) φ := fun _ hs => ⟨hs, h⟩

theorem Gives.bind {f : α → ParserM β} (h : Gives T m φ) (hf : ∀ a, φ a → Gives T (f a) ψ) : Gives T (m >>= f) ψ :=
  Hoare.bind_fact h hf

theorem Gives.ite {c : Prop} [Decidable c] {X Y : ParserM α} (hX : Gives T X φ) (hY : Gives T Y φ) :
    Gives T (if c then X else Y) φ := by
  split
  · exact hX
  · exact hY

theorem Gives.throw {e : Fault ParseError} : Gives T (throw e : ParserM α) φ := Hoare.throw fun _ _ => trivial

/-- A part that is not asked for what it gives. -/
theorem Moves.before (h : Moves m) {f : α → ParserM β} (hf : ∀ a, Gives T (f a) ψ) : Gives T (m >>= f) ψ :=
  h.gives.bind fun a _ => hf a

theorem Gives.branch {w : Word} {X Y : ParserM α} (hX : Gives T X φ) (hY : Gives T Y φ) :
    Gives T (do if ← matchToken w then X else Y) φ := (matchToken_moves w).before fun _ => hX.ite hY

theorem error_gives (message : String) : Gives T (error message : ParserM α) φ :=
  currentToken_moves.before fun _ => .throw

theorem parseIdent_gives : Gives T parseIdent (NamedIn T) := by
  have hcurrent : Gives T currentToken fun t => ∀ u ∈ t, u ∈ T.map (·.token) := by
    intro s hs
    rw [currentToken_apply]
    refine ⟨hs, fun u hu => ?_⟩
    obtain ⟨x, hx, rfl⟩ := Option.map_eq_some_iff.mp hu
    rw [hs.1] at hx
    exact List.mem_map_of_mem (List.mem_of_getElem? hx)
  refine hcurrent.bind fun t ht => ?_
  split
  · exact advance_moves.before fun _ => .pure ⟨_, ht _ rfl, .inl rfl⟩
  · exact advance_moves.before fun _ => .pure ⟨_, ht _ rfl, .inr (.inl rfl)⟩
  · exact advance_moves.before fun _ => .pure ⟨_, ht _ rfl, .inr (.inr rfl)⟩
  · exact error_gives _

theorem commaList_gives (h : Gives T m φ) : ∀ n, Gives T (commaList m n) fun xs => xs ≠ [] ∧ ∀ x ∈ xs, φ x
  | 0 => .throw
  | n + 1 => by
    refine h.bind fun a ha => .branch ?_ (.pure ⟨List.cons_ne_nil _ _, List.forall_mem_singleton.mpr ha⟩)
    exact (commaList_gives h n).bind fun xs hxs => .pure ⟨List.cons_ne_nil _ _, List.forall_mem_cons.mpr ⟨ha, hxs.2⟩⟩

theorem parseList_gives {n : Nat} (h : Gives T m φ) : Gives T (parseList m n) fun xs => xs ≠ [] ∧ ∀ x ∈ xs, φ x :=
  (expect_moves .lParen).before fun _ => (commaList_gives h n).bind fun _ hxs =>
    (expect_moves .rParen).before fun _ => .pure hxs

end

section
variable [DebugText] {T : List SpannedToken} {n : Nat}

theorem parseColumnDef_gives : Gives T (parseColumnDef n) fun d => NamedIn T d.name :=
  parseIdent_gives.bind fun _ hname => parseColumnType_moves.before fun _ =>
    (parsePrimaryKeys_moves n).before fun _ =>
    ((matchToken_moves .not).branch ((expect_moves .null).bind fun _ => .pure) .pure).before fun _ =>
    (matchToken_moves .unique).before fun _ => (optional_moves .default (parseExpr_moves n)).before fun _ => .pure hname

theorem parseCreate_gives : Gives T (parseCreate n) (Statement.NamesIn T) := by
  refine (matchToken_moves .unique).before fun unique => .branch ?_ ((expect_moves .table).before fun _ => ?_)
  · have hindex : Gives T (parseCreateIndex unique n) fun c => Statement.NamesIn T (.createIndex c) :=
      parseIfNotExists_moves.before fun _ => parseIdent_gives.bind fun _ hname => (expect_moves .on).before fun _ =>
        parseIdent_gives.bind fun _ htable => (parseList_gives parseIdent_gives).bind fun _ hcolumns =>
        .pure ⟨hname, htable, hcolumns⟩
    exact hindex.bind fun _ hc => .pure hc
  · have htable : Gives T (parseCreateTable n) fun c => Statement.NamesIn T (.createTable c) :=
      parseIfNotExists_moves.before fun _ => parseIdent_gives.bind fun _ hname =>
        (parseList_gives parseColumnDef_gives).bind fun _ hcolumns => .pure ⟨hname, hcolumns.1, rfl, hcolumns.2⟩
    exact htable.bind fun _ hc => .pure hc

theorem parseStatement_gives : Gives T (parseStatement n) (Statement.NamesIn T) :=
  .branch ((parseSelect_moves (parseExpr_moves n)).before fun _ => .pure trivial) <|
    .branch ((parseInsert_moves n).before fun _ => .pure trivial) <|
    .branch ((parseUpdate_moves n).before fun _ => .pure trivial) <|
    .branch ((parseDelete_moves n).before fun _ => .pure trivial) <|
    .branch parseCreate_gives <|
    .branch ((expect_moves .table).before fun _ => parseDropTable_moves.before fun _ => .pure trivial) <|
    .branch ((parsePragma_moves n).before fun _ => .pure trivial) <|
    .branch (.pure trivial) <| .branch (.pure trivial) <| .branch (.pure trivial) (error_gives _)

end

end Parser

/-- The names of what is parsed are names of tokens. -/
theorem parseOne_names [DebugText] {items : List (Option SpannedToken)} {stmt : Statement}
    (h : parseOne items = .ok stmt) : stmt.NamesIn (tokenize items) := by
  obtain ⟨s, hrun⟩ := outcome_eq_ok h
  exact (Parser.parseStatement_gives.of_ok ⟨rfl, Nat.le_refl _, Nat.zero_le _⟩ hrun).2

end Sqllite
