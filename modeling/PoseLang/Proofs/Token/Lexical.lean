import Mathlib.Data.List.DropRight
import PoseLang.Proofs.Number.Decimal

/-!
# The lexical grammar

How a text is cut into tokens, as relations between characters and what they are. There are four kinds
of lexemes,

    keyword := '@' (LETTER | DIGIT | '_')+
    name    := (LETTER | '_') (LETTER | DIGIT | '_')*
    number  := DIGIT+ ('.' DIGIT+)?
    mark    := '{' | '}' | ':' | ';' | ','

and between them stand blanks and comments (`IsTrivia`). A text is cut into tokens (`Splits`) so that each
lexeme is the longest one that the text goes on with, and the number of each is the finite float nearest
to what is written. A token has the place of its lexeme: the bytes before and up to its end in UTF-8, the
line ends before it, and the characters since the last of them (`placeAfter`).

The relations do not mention the lexer.
-/

namespace PoseLang.Lexical

/-! ### Lexemes -/

/-- The characters after the `@` of a keyword. -/
def IsWord (text : List Char) : Prop := text ≠ [] ∧ ∀ c ∈ text, isNameChar c = true

/-- A name. -/
inductive IsName : List Char → Prop
  | mk {c : Char} {cs : List Char} : isNameStart c = true → (∀ d ∈ cs, isNameChar d = true) → IsName (c :: cs)

/-- One digit or more. -/
def IsDigits (text : List Char) : Prop := text ≠ [] ∧ ∀ c ∈ text, c.isDigit = true

/-- A number, and the rational number that it writes. -/
inductive IsNumeral : List Char → ℚ → Prop
  | whole {whole : List Char} : IsDigits whole → IsNumeral whole (decimalNumber whole [])
  | point {whole fraction : List Char} : IsDigits whole → IsDigits fraction →
      IsNumeral (whole ++ '.' :: fraction) (decimalNumber whole fraction)

/-- Characters that are some lexeme. The number that they write may be too great for a float. -/
inductive IsLexeme : List Char → Prop
  | keyword {word : List Char} : IsWord word → IsLexeme ('@' :: word)
  | name {text : List Char} : IsName text → IsLexeme text
  | number {text : List Char} {q : ℚ} : IsNumeral text q → IsLexeme text
  | mark {c : Char} : c ∈ ['\x7b', '\x7d', ':', ';', ','] → IsLexeme [c]

/-- The token that a lexeme is. -/
inductive Spells : List Char → TokenKind → Prop
  | keyword {word : List Char} : IsWord word → Spells ('@' :: word) (.keyword (String.ofList word))
  | ident {text : List Char} : IsName text → Spells text (.ident (String.ofList text))
  | number {text : List Char} {q : ℚ} {value : Float} :
      IsNumeral text q → RoundsTo q value → Spells text (.number value)
  | openBrace : Spells ['\x7b'] .openBrace
  | closeBrace : Spells ['\x7d'] .closeBrace
  | colon : Spells [':'] .colon
  | semicolon : Spells [';'] .semicolon
  | comma : Spells [','] .comma

/-- No lexeme at the front of `text ++ rest` is longer than `text`. -/
def Longest (text rest : List Char) : Prop :=
  ∀ longer, longer <+: text ++ rest → IsLexeme longer → longer.length ≤ text.length

/-! ### Blanks and comments -/

/-- Blanks and comments, where `rest` comes next. A comment goes on to the end of its line, and the line
feed or the end of the text is no part of it. -/
inductive IsTrivia (rest : List Char) : List Char → Prop
  | nil : IsTrivia rest []
  | blank {c : Char} {gap : List Char} : isBlank c = true → IsTrivia rest gap → IsTrivia rest (c :: gap)
  | comment {opening body gap : List Char} : opening ∈ [['#'], ['/', '/']] → '\n' ∉ body →
      (∀ c ∈ (gap ++ rest).head?, c = '\n') → IsTrivia rest gap → IsTrivia rest (opening ++ body ++ gap)

/-! ### Places and tokens -/

/-- The place after some characters of a text. -/
def placeAfter (before : List Char) : Position where
  offset := (String.ofList before).utf8ByteSize
  line := 1 + before.count '\n'
  column := 1 + (before.rtakeWhile (· ≠ '\n')).length

/-- The stretch of a lexeme after some characters of a text. -/
def spanOf (before text : List Char) : Span where
  start := (placeAfter before).offset
  stop := (placeAfter (before ++ text)).offset
  line := (placeAfter before).line
  column := (placeAfter before).column

/-- After the characters `before`, the text is cut into these tokens. -/
inductive Splits : List Char → List Char → List Token → Prop
  | stop {before gap : List Char} : IsTrivia [] gap → Splits before gap []
  | token {before gap text rest : List Char} {kind : TokenKind} {tokens : List Token} :
      IsTrivia (text ++ rest) gap → Spells text kind → Longest text rest →
      Splits (before ++ gap ++ text) rest tokens →
      Splits before (gap ++ text ++ rest) (⟨kind, spanOf (before ++ gap) text⟩ :: tokens)

/-- The source text is cut into these tokens, and ends where they say. -/
structure IsSplit (source : String) (ts : Tokens) : Prop where
  tokens : Splits [] source.toList ts.list
  stop : ts.stop = placeAfter source.toList

end PoseLang.Lexical
