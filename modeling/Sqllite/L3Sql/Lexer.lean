import Sqllite.L3Sql.Ast
import Sqllite.Lib.Run

/-!
# Tokens (`sqllite-parser/src/lexer.rs`)

The lexer is generated from the patterns of the token type; it comes in as the list of
its items, one for each lexeme, where `none` is one that matches no pattern.
-/
namespace Sqllite

/-- The tokens without a value in front of the first one with a value. -/
inductive Word where
  | select | «from» | «where» | insert | into | values | update | set | delete | create | table
  | index | drop | «if» | not | exists | primary | key | autoincrement | null | integer | real
  | text | blob | and | or | order | «by» | asc | desc | limit | begin | commit | rollback
  | transaction | pragma | unique | default | as | on | join | left | inner | cross | group
  | having | distinct | count | like | is | «in» | between | case | when | «then» | «else»
  | «end» | collate | constraint | foreign | references | check | view | trigger | temp
  | temporary | without | rowid | replace | ignore | fail | abortKw | «with» | union | all
  | except | intersect | offset | concat | eqEq | notEq | le | ge | shl | shr | eq | lt | gt
  | plus | minus | star | slash | percent | amp | pipe | tilde | lParen | rParen | comma | semi
  | dot
  deriving DecidableEq, Repr

/-- A real is its bit pattern.
mirrors sqllite-parser/src/lexer.rs:10-238 -/
inductive Token where
  | word (w : Word)
  | integerLit (n : Int64)
  | realLit (r : UInt64)
  | stringLit (s : String)
  | quotedIdent (s : String)
  | backtickIdent (s : String)
  | blobLit (b : List UInt8)
  | ident (s : String)
  | bindParam
  | namedParam (s : String)
  | atParam (s : String)
  | dollarParam (s : String)

/-- `std::mem::discriminant`. -/
inductive Kind where
  | word (w : Word)
  | integerLit | realLit | stringLit | quotedIdent | backtickIdent | blobLit | ident | bindParam
  | namedParam | atParam | dollarParam
  deriving DecidableEq, Repr

/-- The kinds of a name. -/
def Kind.isIdent : Kind → Bool
  | .ident => true
  | .quotedIdent => true
  | .backtickIdent => true
  | _ => false

def Token.kind : Token → Kind
  | .word w => .word w
  | .integerLit _ => .integerLit
  | .realLit _ => .realLit
  | .stringLit _ => .stringLit
  | .quotedIdent _ => .quotedIdent
  | .backtickIdent _ => .backtickIdent
  | .blobLit _ => .blobLit
  | .ident _ => .ident
  | .bindParam => .bindParam
  | .namedParam _ => .namedParam
  | .atParam _ => .atParam
  | .dollarParam _ => .dollarParam

/-- mirrors sqllite-parser/src/lexer.rs:299-304 -/
structure SpannedToken where
  token : Token
  start : Nat
  «end» : Nat

/-- mirrors sqllite-parser/src/lexer.rs:306-322 -/
def tokenize (items : List (Option SpannedToken)) : List SpannedToken := items.filterMap id

end Sqllite
