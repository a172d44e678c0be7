import PoseLang.Span
import PoseLang.Number.Decimal

/-!
# Tokens

The words and marks of the pose language, each with the stretch of source it came from.
The end of the input is not a token: `Tokens` holds it as the place where the text ends.
-/

namespace PoseLang

/-- What a token is. -/
inductive TokenKind where
  /-- A block keyword: `@` and then this word. -/
  | keyword (word : String)
  /-- A name or a plain word. -/
  | ident (name : String)
  /-- A number as it was written, never negative. -/
  | number (value : Float)
  | openBrace
  | closeBrace
  | colon
  | semicolon
  | comma
deriving DecidableEq, Repr, Inhabited

/-- How a message names a token. -/
def TokenKind.describe : TokenKind → String
  | keyword word => "'@" ++ word ++ "'"
  | ident name => "'" ++ name ++ "'"
  | number value => "number " ++ numberText value
  | openBrace => "'\x7b'"
  | closeBrace => "'\x7d'"
  | colon => "':'"
  | semicolon => "';'"
  | comma => "','"

/-- How a message names the end of the input. -/
def describeEnd : String := "end of input"

/-- A token and its place. -/
structure Token where
  kind : TokenKind
  span : Span
deriving DecidableEq, Repr, Inhabited

/-- A text cut into tokens. -/
structure Tokens where
  /-- The tokens in order. -/
  list : List Token
  /-- Where the text ends. -/
  stop : Position
deriving DecidableEq, Repr, Inhabited

end PoseLang
