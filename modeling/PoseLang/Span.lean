/-!
# Places in a source text

While a text is read, a `Position` says how far: the bytes so far, and the line and column
of the next character. A `Span` is the stretch of one lexeme, and a `Location` is what a
message shows of a place.
-/

namespace PoseLang

/-- Line and column, both counted from 1. -/
structure Location where
  line : Nat
  column : Nat
deriving DecidableEq, Repr, Inhabited

/-- How far a text has been read. -/
structure Position where
  /-- The bytes that were read, in UTF-8. -/
  offset : Nat
  /-- One more than the line ends that were read. -/
  line : Nat
  /-- One more than the characters since the last line end. -/
  column : Nat
deriving DecidableEq, Repr, Inhabited

namespace Position

/-- Nothing was read yet. -/
def start : Position := ⟨0, 1, 1⟩

/-- The place after one more character. Only a line feed ends a line. -/
def step (p : Position) (c : Char) : Position :=
  if c = '\n' then ⟨p.offset + c.utf8Size, p.line + 1, 1⟩
  else ⟨p.offset + c.utf8Size, p.line, p.column + 1⟩

/-- The place after some more characters. -/
def advance (p : Position) (cs : List Char) : Position := cs.foldl step p

@[simp] theorem advance_nil (p : Position) : p.advance [] = p := rfl

@[simp] theorem advance_cons (p : Position) (c : Char) (cs : List Char) :
    p.advance (c :: cs) = (p.step c).advance cs := rfl

theorem advance_append (p : Position) (cs ds : List Char) :
    p.advance (cs ++ ds) = (p.advance cs).advance ds := List.foldl_append

/-- What a message shows of the place. -/
def location (p : Position) : Location := ⟨p.line, p.column⟩

end Position

/-- A stretch of the source: its bytes from `start` to before `stop`, and where it begins. -/
structure Span where
  start : Nat
  stop : Nat
  line : Nat
  column : Nat
deriving DecidableEq, Repr, Inhabited

namespace Span

/-- The stretch from one place to a later one. -/
def between (p q : Position) : Span := ⟨p.offset, q.offset, p.line, p.column⟩

/-- Where the stretch begins. -/
def location (s : Span) : Location := ⟨s.line, s.column⟩

@[simp] theorem location_between (p q : Position) : (between p q).location = p.location := rfl

end Span

end PoseLang
