import PoseLang.Text.Blank
import PoseLang.Token

/-!
# From text to tokens

Between tokens stand blanks and comments; a comment begins with `#` or `//` and runs to the
end of its line. `lexeme` reads the one token at the front of a text, as long as possible,
and `lex` repeats it. The rest after a token is shorter (`length_of_lexeme`), so reading a
text ends.
-/

namespace PoseLang

/-- Why no token can be read. -/
inductive LexFault where
  /-- An `@` that no word follows. -/
  | missingKeyword
  /-- A decimal point that no digit follows. -/
  | missingFraction
  /-- A number too large for a float. -/
  | outOfRange (text : String)
  /-- A character that begins no token. -/
  | unexpected (c : Char)
deriving DecidableEq, Repr

/-- The text of a fault. -/
def LexFault.message : LexFault → String
  | missingKeyword => "expected block keyword after '@'"
  | missingFraction => "expected digits after decimal point"
  | outOfRange text => "number '" ++ text ++ "' is out of range"
  | unexpected c => "unexpected character '" ++ c.toString ++ "'"

/-- A fault and where its lexeme begins. -/
structure LexError where
  fault : LexFault
  location : Location
deriving DecidableEq, Repr

/-! ### Blanks and comments -/

/-- Whether a comment begins at `c :: rest`. -/
def opensComment (c : Char) (rest : List Char) : Bool :=
  c = '#' || (c = '/' && rest.head? = some '/')

/-- The rest of a text after the blanks and comments at its front, and the place where it begins.
The flag says that the text begins inside a comment. -/
def skipTrivia (inComment : Bool) (p : Position) : List Char → Position × List Char
  | [] => (p, [])
  | c :: cs =>
    if inComment then skipTrivia (c != '\n') (p.step c) cs
    else if isBlank c then skipTrivia false (p.step c) cs
    else if opensComment c cs then skipTrivia true (p.step c) cs
    else (p, c :: cs)

theorem length_skipTrivia (b : Bool) (p : Position) (cs : List Char) :
    (skipTrivia b p cs).2.length ≤ cs.length := by
  induction cs generalizing b p with
  | nil => simp [skipTrivia]
  | cons c cs ih =>
    unfold skipTrivia
    split
    · exact Nat.le_succ_of_le (ih ..)
    · split
      · exact Nat.le_succ_of_le (ih ..)
      · split
        · exact Nat.le_succ_of_le (ih ..)
        · exact Nat.le_refl _

/-! ### One token -/

/-- The mark that a character is, if it is one. -/
def mark? : Char → Option TokenKind
  | '\x7b' => some .openBrace
  | '\x7d' => some .closeBrace
  | ':' => some .colon
  | ';' => some .semicolon
  | ',' => some .comma
  | _ => none

/-- A character that a name may begin with. -/
def isNameStart (c : Char) : Bool := c.isAlpha || c = '_'

/-- A character that a name may go on with. -/
def isNameChar (c : Char) : Bool := c.isAlphanum || c = '_'

/-- The number that a list of decimal digits writes. -/
def digitsValue (ds : List Char) : Nat := ds.foldl (fun n d => 10 * n + (d.toNat - 48)) 0

/-- The float nearest to the decimal number with these digits before and after the point. -/
def decimalValue (whole fraction : List Char) : Float :=
  Float.ofScientific (digitsValue (whole ++ fraction)) true fraction.length

/-- A lexeme at the front of a text: its token, its characters, and the characters after it. -/
structure Lexeme where
  kind : TokenKind
  text : List Char
  rest : List Char

/-- The number lexeme with this value, if a float can hold it. -/
def numberLexeme (value : Float) (text rest : List Char) : Except LexFault Lexeme :=
  if value.isFinite then .ok ⟨.number value, text, rest⟩
  else .error (.outOfRange (String.ofList text))

/-- The number at the front of a text that begins with a digit: digits, and if a point follows
them, more digits. -/
def lexNumber (cs : List Char) : Except LexFault Lexeme :=
  let whole := cs.takeWhile Char.isDigit
  match cs.dropWhile Char.isDigit with
  | '.' :: rest =>
    match rest.takeWhile Char.isDigit with
    | [] => .error .missingFraction
    | d :: ds =>
      numberLexeme (decimalValue whole (d :: ds)) (whole ++ '.' :: d :: ds)
        (rest.dropWhile Char.isDigit)
  | rest => numberLexeme (decimalValue whole []) whole rest

/-- The lexeme at the front of `c :: cs`, which is neither blank nor the start of a comment. -/
def lexeme (c : Char) (cs : List Char) : Except LexFault Lexeme :=
  match mark? c with
  | some kind => .ok ⟨kind, [c], cs⟩
  | none =>
    if c = '@' then
      match cs.takeWhile isNameChar with
      | [] => .error .missingKeyword
      | w :: ws => .ok ⟨.keyword (String.ofList (w :: ws)), c :: w :: ws, cs.dropWhile isNameChar⟩
    else if c.isDigit then lexNumber (c :: cs)
    else if isNameStart c then
      let name := c :: cs.takeWhile isNameChar
      .ok ⟨.ident (String.ofList name), name, cs.dropWhile isNameChar⟩
    else .error (.unexpected c)

theorem numberLexeme_eq_ok {value : Float} {text rest : List Char} {l : Lexeme}
    (h : numberLexeme value text rest = .ok l) : l = ⟨.number value, text, rest⟩ := by
  unfold numberLexeme at h
  split at h
  · exact (Except.ok.inj h).symm
  · cases h

/-- A number's characters and the rest make up the text. -/
theorem append_of_lexNumber {cs : List Char} {l : Lexeme} (h : lexNumber cs = .ok l) :
    l.text ++ l.rest = cs := by
  unfold lexNumber at h
  split at h
  next rest hd =>
    split at h
    · cases h
    next d ds ht =>
      obtain rfl := numberLexeme_eq_ok h
      have hr : (d :: ds) ++ rest.dropWhile Char.isDigit = rest := by
        rw [← ht]; exact List.takeWhile_append_dropWhile
      simp only [List.append_assoc, List.cons_append] at hr ⊢
      rw [hr, ← hd]
      exact List.takeWhile_append_dropWhile
  · obtain rfl := numberLexeme_eq_ok h
    exact List.takeWhile_append_dropWhile

/-- A lexeme's characters and the rest make up the text. -/
theorem append_of_lexeme {c : Char} {cs : List Char} {l : Lexeme} (h : lexeme c cs = .ok l) :
    l.text ++ l.rest = c :: cs := by
  unfold lexeme at h
  split at h
  · cases h; rfl
  · split at h
    · split at h
      · cases h
      next w ws hw =>
        cases h
        simp only [List.cons_append, List.cons.injEq, true_and]
        have := List.takeWhile_append_dropWhile (p := isNameChar) (l := cs)
        rwa [hw, List.cons_append] at this
    · split at h
      · exact append_of_lexNumber h
      · split at h
        · cases h
          simp [List.takeWhile_append_dropWhile]
        · cases h

/-- A number has at least its first digit. -/
theorem ne_nil_of_lexNumber {c : Char} {cs : List Char} {l : Lexeme} (hc : c.isDigit = true)
    (h : lexNumber (c :: cs) = .ok l) : l.text ≠ [] := by
  unfold lexNumber at h
  split at h
  · split at h
    · cases h
    · obtain rfl := numberLexeme_eq_ok h
      simp
  · obtain rfl := numberLexeme_eq_ok h
    simp [hc]

/-- A lexeme has at least one character. -/
theorem ne_nil_of_lexeme {c : Char} {cs : List Char} {l : Lexeme} (h : lexeme c cs = .ok l) :
    l.text ≠ [] := by
  unfold lexeme at h
  split at h
  · cases h; simp
  · split at h
    · split at h
      · cases h
      · cases h; simp
    · split at h
      next hd => exact ne_nil_of_lexNumber hd h
      · split at h
        · cases h; simp
        · cases h

/-- What follows a lexeme is shorter than the text it was read from. -/
theorem length_of_lexeme {c : Char} {cs : List Char} {l : Lexeme} (h : lexeme c cs = .ok l) :
    l.rest.length < (c :: cs).length := by
  have hne : 0 < l.text.length := List.length_pos_iff.mpr (ne_nil_of_lexeme h)
  rw [← append_of_lexeme h, List.length_append]
  omega

/-! ### All tokens -/

/-- Reads tokens to the end of the text, after those that were read already. -/
def lexFrom (done : Array Token) (p : Position) (cs : List Char) : Except LexError Tokens :=
  match h : skipTrivia false p cs with
  | (q, []) => .ok ⟨done.toList, q⟩
  | (q, c :: rest) =>
    match hl : lexeme c rest with
    | .error fault => .error ⟨fault, q.location⟩
    | .ok l =>
      have : l.rest.length < cs.length := by
        have hs := length_skipTrivia false p cs
        rw [h] at hs
        exact Nat.lt_of_lt_of_le (length_of_lexeme hl) hs
      lexFrom (done.push ⟨l.kind, .between q (q.advance l.text)⟩) (q.advance l.text) l.rest
termination_by cs.length

/-- The tokens of a source text. -/
def lex (source : String) : Except LexError Tokens :=
  lexFrom #[] .start source.toList

end PoseLang
