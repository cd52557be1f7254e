import Sqllite.L1Encoding.Values
import Sqllite.L3Sql.Lexer
import Sqllite.Lib.Munch

/-!
# The token rules (`sqllite-parser/src/lexer.rs`)

A text is the list of its characters. Each pattern is given by the length of its longest
match at the front of a text; the lexer takes the longest match of all patterns, and of
equal ones the first. `(?i)` folds as Unicode does, so `ſ` stands for `S` and the Kelvin
sign for `K`.
-/
namespace Sqllite
open Lib

/-! ## Patterns -/

/-- `[a-zA-Z_]`. -/
def identStart (c : Char) : Bool := c.isAlpha || c == '_'

/-- `[a-zA-Z0-9_]`. -/
def identChar (c : Char) : Bool := c.isAlphanum || c == '_'

/-- `[ \t\r\n\f]`. -/
def isBlank (c : Char) : Bool := c ∈ [' ', '\t', '\r', '\n', '\x0c']

/-- The length of the run of characters with `p`, one at least. -/
def runScan (p : Char → Bool) (cs : List Char) : Option Nat :=
  match (cs.takeWhile p).length with
  | 0 => none
  | n + 1 => some (n + 1)

/-- `--[^\n]*`. -/
def lineCommentScan : List Char → Option Nat
  | '-' :: '-' :: cs => some ((cs.takeWhile (· ≠ '\n')).length + 2)
  | _ => none

/-- `([^*]|\*[^/])*\*/`. -/
def commentEnd : List Char → Option Nat
  | '*' :: '/' :: _ => some 2
  | '*' :: _ :: cs => (commentEnd cs).map (· + 2)
  | ['*'] => none
  | _ :: cs => (commentEnd cs).map (· + 1)
  | [] => none

/-- `/\*([^*]|\*[^/])*\*/`. -/
def blockCommentScan : List Char → Option Nat
  | '/' :: '*' :: cs => (commentEnd cs).map (· + 2)
  | _ => none

/-- Letter for letter. -/
def beginsWith (same : Char → Char → Bool) : List Char → List Char → Bool
  | [], _ => true
  | _ :: _, [] => false
  | k :: ks, c :: cs => same k c && beginsWith same ks cs

/-- A letter of a keyword, `k`, in either case. -/
def anyCase (k c : Char) : Bool :=
  c.toUpper == k || (k == 'S' && c == 'ſ') || (k == 'K' && c == '\u212a')

/-- The one text `text`. -/
def textScan (same : Char → Char → Bool) (text cs : List Char) : Option Nat :=
  if beginsWith same text cs then some text.length else none

/-- `x?`, for one character. -/
def optionalScan (p : Char → Bool) : List Char → Nat
  | c :: _ => if p c then 1 else 0
  | [] => 0

/-- `-?[0-9]+`. -/
def integerScan (cs : List Char) : Option Nat :=
  let k := optionalScan (· == '-') cs
  (runScan Char.isDigit (cs.drop k)).map (k + ·)

/-- `\.[0-9]+`. -/
def fractionScan : List Char → Option Nat
  | '.' :: cs => (runScan Char.isDigit cs).map (· + 1)
  | _ => none

/-- `[eE][+-]?[0-9]+`. -/
def exponentScan : List Char → Option Nat
  | c :: cs =>
    if c = 'e' ∨ c = 'E' then
      let k := optionalScan (fun c => c == '+' || c == '-') cs
      (runScan Char.isDigit (cs.drop k)).map (1 + k + ·)
    else none
  | [] => none

/-- `-?[0-9]+\.[0-9]+([eE][+-]?[0-9]+)?`. -/
def realScan (cs : List Char) : Option Nat := do
  let n ← integerScan cs
  let k ← fractionScan (cs.drop n)
  pure (n + k + (exponentScan (cs.drop (n + k))).getD 0)

/-- `([^q\\]|\\.|qq)*q`; behind a quote it may go on or not. -/
def closingScan (q : Char) : List Char → Option Nat
  | [] => none
  | [c] => if c = q then some 1 else none
  | c :: d :: cs =>
    if c = q then
      if d = q then some (((closingScan q cs).map (· + 2)).getD 1) else some 1
    else if c = '\\' then
      if d = '\n' then none else (closingScan q cs).map (· + 2)
    else (closingScan q (d :: cs)).map (· + 1)

/-- `q([^q\\]|\\.|qq)*q`. -/
def quotedScan (q : Char) : List Char → Option Nat
  | c :: cs => if c = q then (closingScan q cs).map (· + 1) else none
  | [] => none

/-- `[0-9a-fA-F]`. -/
def isHex (c : Char) : Bool :=
  c.isDigit || ('a' ≤ c && c ≤ 'f') || ('A' ≤ c && c ≤ 'F')

/-- `[xX]'[0-9a-fA-F]*'`. -/
def blobScan : List Char → Option Nat
  | c :: '\'' :: cs =>
    if c = 'x' ∨ c = 'X' then
      let n := (cs.takeWhile isHex).length
      if cs[n]? = some '\'' then some (n + 3) else none
    else none
  | _ => none

/-- `[a-zA-Z_][a-zA-Z0-9_]*`. -/
def identScan : List Char → Option Nat
  | c :: cs => if identStart c then some ((cs.takeWhile identChar).length + 1) else none
  | [] => none

/-- An identifier behind a mark. -/
def paramScan (mark : Char) : List Char → Option Nat
  | c :: cs => if c = mark then (identScan cs).map (· + 1) else none
  | [] => none

/-! ## Values -/

/-- Without the first and the last character. -/
def inner (cs : List Char) : List Char := (cs.drop 1).dropLast

/-- `s.replace(qq, q)`. -/
def undouble (q : Char) : List Char → List Char
  | [] => []
  | [c] => [c]
  | c :: d :: cs => if c = q ∧ d = q then q :: undouble q cs else c :: undouble q (d :: cs)

/-- mirrors sqllite-parser/src/lexer.rs:276-296 -/
def unescapeSqlString : List Char → List Char
  | [] => []
  | ['\\'] => []
  | [c] => [c]
  | c :: d :: cs =>
    if c = '\'' then
      if d = '\'' then '\'' :: unescapeSqlString cs else '\'' :: unescapeSqlString (d :: cs)
    else if c = '\\' then d :: unescapeSqlString cs
    else c :: unescapeSqlString (d :: cs)

def hexDigit (c : Char) : Nat :=
  if c.isDigit then c.toNat - 48 else if 'a' ≤ c then c.toNat - 87 else c.toNat - 55

/-- mirrors sqllite-parser/src/lexer.rs:262-274 -/
def parseBlob : List Char → Option (List UInt8)
  | [] => some []
  | [_] => none
  | c :: d :: cs => (parseBlob cs).map (UInt8.ofNat (16 * hexDigit c + hexDigit d) :: ·)

/-! ## Rules -/

/-- What a match is read as. -/
inductive Lexeme where
  | skip
  | token (t : Token)
  | error

def Lexeme.ofRead : Option Token → Lexeme
  | some t => .token t
  | none => .error

/-- A pattern and its callback. -/
def lexRule (scan : List Char → Option Nat) (read : List Char → Lexeme) : Munch.Rule Char Lexeme :=
  fun cs => (scan cs).map fun n => (n, read (cs.take n))

/-- mirrors sqllite-parser/src/lexer.rs:7-9 -/
def skipRules : List (Munch.Rule Char Lexeme) :=
  [runScan isBlank, lineCommentScan, blockCommentScan].map fun scan => lexRule scan fun _ => .skip

/-- mirrors sqllite-parser/src/lexer.rs:11-166 -/
def keywordTexts : List (List Char × Word) :=
  [("SELECT", .select), ("FROM", .from), ("WHERE", .where), ("INSERT", .insert), ("INTO", .into),
   ("VALUES", .values), ("UPDATE", .update), ("SET", .set), ("DELETE", .delete),
   ("CREATE", .create), ("TABLE", .table), ("INDEX", .index), ("DROP", .drop), ("IF", .if),
   ("NOT", .not), ("EXISTS", .exists), ("PRIMARY", .primary), ("KEY", .key),
   ("AUTOINCREMENT", .autoincrement), ("NULL", .null), ("INTEGER", .integer), ("REAL", .real),
   ("TEXT", .text), ("BLOB", .blob), ("AND", .and), ("OR", .or), ("ORDER", .order), ("BY", .by),
   ("ASC", .asc), ("DESC", .desc), ("LIMIT", .limit), ("BEGIN", .begin), ("COMMIT", .commit),
   ("ROLLBACK", .rollback), ("TRANSACTION", .transaction), ("PRAGMA", .pragma),
   ("UNIQUE", .unique), ("DEFAULT", .default), ("AS", .as), ("ON", .on), ("JOIN", .join),
   ("LEFT", .left), ("INNER", .inner), ("CROSS", .cross), ("GROUP", .group), ("HAVING", .having),
   ("DISTINCT", .distinct), ("COUNT", .count), ("LIKE", .like), ("IS", .is), ("IN", .in),
   ("BETWEEN", .between), ("CASE", .case), ("WHEN", .when), ("THEN", .then), ("ELSE", .else),
   ("END", .end), ("COLLATE", .collate), ("CONSTRAINT", .constraint), ("FOREIGN", .foreign),
   ("REFERENCES", .references), ("CHECK", .check), ("VIEW", .view), ("TRIGGER", .trigger),
   ("TEMP", .temp), ("TEMPORARY", .temporary), ("WITHOUT", .without), ("ROWID", .rowid),
   ("REPLACE", .replace), ("IGNORE", .ignore), ("FAIL", .fail), ("ABORT", .abortKw),
   ("WITH", .with), ("UNION", .union), ("ALL", .all), ("EXCEPT", .except),
   ("INTERSECT", .intersect), ("OFFSET", .offset)].map fun k => (k.1.toList, k.2)

/-- mirrors sqllite-parser/src/lexer.rs:168-214 -/
def operatorTexts : List (List Char × Word) :=
  [("||", .concat), ("==", .eqEq), ("!=", .notEq), ("<>", .notEq), ("<=", .le), (">=", .ge),
   ("<<", .shl), (">>", .shr), ("=", .eq), ("<", .lt), (">", .gt), ("+", .plus), ("-", .minus),
   ("*", .star), ("/", .slash), ("%", .percent), ("&", .amp), ("|", .pipe), ("~", .tilde),
   ("(", .lParen), (")", .rParen), (",", .comma), (";", .semi), (".", .dot)].map
    fun k => (k.1.toList, k.2)

def wordRule (same : Char → Char → Bool) (k : List Char × Word) : Munch.Rule Char Lexeme :=
  lexRule (textScan same k.1) fun _ => .token (.word k.2)

/-- mirrors sqllite-parser/src/lexer.rs:216-217 -/
def integerRule : Munch.Rule Char Lexeme :=
  lexRule integerScan fun cs => .ofRead ((parseI64 (.ofList cs)).map .integerLit)

/-- mirrors sqllite-parser/src/lexer.rs:218-219, 240-242 -/
def realRule : Munch.Rule Char Lexeme :=
  lexRule realScan fun cs => .ofRead ((parseF64 (.ofList cs)).map fun r => .realLit r.toBits)

/-- mirrors sqllite-parser/src/lexer.rs:220-221, 244-248 -/
def stringRule : Munch.Rule Char Lexeme :=
  lexRule (quotedScan '\'') fun cs => .token (.stringLit (.ofList (unescapeSqlString (inner cs))))

/-- mirrors sqllite-parser/src/lexer.rs:222-225, 250-260 -/
def quotedRule (q : Char) (token : String → Token) : Munch.Rule Char Lexeme :=
  lexRule (quotedScan q) fun cs => .token (token (.ofList (undouble q (inner cs))))

/-- mirrors sqllite-parser/src/lexer.rs:226-227 -/
def blobRule : Munch.Rule Char Lexeme :=
  lexRule blobScan fun cs => .ofRead ((parseBlob (inner (cs.drop 1))).map .blobLit)

/-- mirrors sqllite-parser/src/lexer.rs:228-229 -/
def identRule : Munch.Rule Char Lexeme := lexRule identScan fun cs => .token (.ident (.ofList cs))

/-- mirrors sqllite-parser/src/lexer.rs:230-231 -/
def bindRule : Munch.Rule Char Lexeme := lexRule (textScan (· == ·) ['?']) fun _ => .token .bindParam

/-- mirrors sqllite-parser/src/lexer.rs:232-237 -/
def paramRule (mark : Char) (token : String → Token) : Munch.Rule Char Lexeme :=
  lexRule (paramScan mark) fun cs => .token (token (.ofList (cs.drop 1)))

def valueRules : List (Munch.Rule Char Lexeme) :=
  [integerRule, realRule, stringRule, quotedRule '"' .quotedIdent, quotedRule '\x60' .backtickIdent,
   blobRule, identRule, bindRule, paramRule ':' .namedParam, paramRule '@' .atParam,
   paramRule '$' .dollarParam]

/-- mirrors sqllite-parser/src/lexer.rs:5-238 -/
def tokenRules : List (Munch.Rule Char Lexeme) :=
  skipRules ++ keywordTexts.map (wordRule anyCase) ++ operatorTexts.map (wordRule (· == ·)) ++ valueRules

/-- Where no pattern matches, the lexer goes over a character and `lost` more. -/
class Unmatched where
  lost : List Char → Nat

/-- The lexer goes over one character where no pattern matches. -/
@[reducible] def Unmatched.one : Unmatched := ⟨fun _ => 0⟩

/-- The pieces that are not skipped, with where they begin and end in bytes. -/
def spans : Nat → List (List Char × Option Lexeme) → List (Option SpannedToken)
  | _, [] => []
  | start, (u, lexeme) :: rest =>
    let stop := start + (u.map Char.utf8Size).sum
    match lexeme with
    | some .skip => spans stop rest
    | some (.token t) => some { token := t, start := start, «end» := stop } :: spans stop rest
    | some .error => none :: spans stop rest
    | none => none :: spans stop rest

/-- `Token::lexer(sql)`. -/
def lexer [Unmatched] (sql : List Char) : List (Option SpannedToken) :=
  spans 0 (Munch.pieces tokenRules Unmatched.lost sql)

end Sqllite
