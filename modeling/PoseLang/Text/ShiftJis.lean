import PoseLang.Text.ShiftJis.Table

/-!
# Shift_JIS

The names in a motion stream are texts in Shift_JIS: a character is one byte, or two of which
the first is a lead byte. The second of two bytes may look like an ASCII character, so a text
is read from its start.

Reading never fails: what has no character becomes the replacement character U+FFFD. Writing
fails at the first character that has no code. The yen sign, the overline and the minus sign
are written as the codes of `\`, `~` and `－`, and read back as those.
-/

namespace PoseLang.ShiftJis

/-! ### The grid of double-byte characters -/

/-- The cells of each row that has characters. -/
def rows : List (Nat × List Char) := rowTexts.map fun (row, text) => (row, text.toList)

/-- The character at a place of the grid. -/
def charAt? (place : Nat) : Option Char :=
  match rows.lookup (place / 94) with
  | some cells => cells[place % 94]?.filter (· ≠ ' ')
  | none => none

/-- The place that a character is written as: the first one outside rows 88 to 91. -/
def place? (c : Char) : Option Nat :=
  rows.findSome? fun (row, cells) =>
    if 88 ≤ row ∧ row ≤ 91 then none else (cells.idxOf? c).map (94 * row + ·)

/-- The two bytes of a place. A lead byte covers two rows. -/
def placeBytes (place : Nat) : List UInt8 :=
  let lead := place / 188
  let trail := place % 188
  [.ofNat (if lead < 0x1F then lead + 0x81 else lead + 0xC1),
   .ofNat (if trail < 0x3F then trail + 0x40 else trail + 0x41)]

/-- Whether a byte begins a code of two bytes. -/
def isLead (b : UInt8) : Bool := (0x81 ≤ b && b ≤ 0x9F) || (0xE0 ≤ b && b ≤ 0xFC)

/-- Whether a byte may end a code of two bytes. -/
def isTrail (b : UInt8) : Bool := (0x40 ≤ b && b ≤ 0x7E) || (0x80 ≤ b && b ≤ 0xFC)

/-- The place of a lead and a trail byte. -/
def placeOf (lead trail : UInt8) : Nat :=
  (if lead < 0xA0 then lead.toNat - 0x81 else lead.toNat - 0xC1) * 188
    + (if trail < 0x7F then trail.toNat - 0x40 else trail.toNat - 0x41)

/-! ### Writing -/

/-- The code of a character. -/
def encodeChar? (c : Char) : Option (List UInt8) :=
  if c.toNat ≤ 0x80 then some [.ofNat c.toNat]
  else if c = '¥' then some [0x5C]
  else if c = '‾' then some [0x7E]
  else if '｡' ≤ c ∧ c ≤ 'ﾟ' then some [.ofNat (c.toNat - '｡'.toNat + 0xA1)]
  else (place? (if c = '−' then '－' else c)).map placeBytes

/-- The code of a text, if every character has one. -/
def encode? (text : String) : Option (List UInt8) :=
  (text.toList.mapM encodeChar?).map List.flatten

/-! ### Reading -/

/-- Stands for bytes that are no character. -/
def replacement : Char := '�'

/-- The character of a byte that is not a lead byte. -/
def decodeByte (b : UInt8) : Char :=
  if b ≤ 0x80 then .ofNat b.toNat
  else if 0xA1 ≤ b ∧ b ≤ 0xDF then .ofNat (b.toNat - 0xA1 + '｡'.toNat)
  else replacement

/-- The character of two bytes. The places from 8836 on that have no row are for private use. -/
def decodePair? (lead trail : UInt8) : Option Char :=
  if isTrail trail then
    let place := placeOf lead trail
    if 8836 ≤ place ∧ place ≤ 10715 then some (.ofNat (place - 8836 + 0xE000))
    else charAt? place
  else none

/-- The characters of a code. If two bytes are no character, an ASCII character in the second
place is read on its own. -/
def decodeChars : List UInt8 → List Char
  | [] => []
  | [b] => [if isLead b then replacement else decodeByte b]
  | b :: t :: rest =>
    if isLead b then
      match decodePair? b t with
      | some c => c :: decodeChars rest
      | none =>
        replacement :: (if t < 0x80 then decodeChars (t :: rest) else decodeChars rest)
    else decodeByte b :: decodeChars (t :: rest)

/-- The text of a code. -/
def decode (bytes : List UInt8) : String := String.ofList (decodeChars bytes)

end PoseLang.ShiftJis
