import PoseLang.Number.Binary

/-!
# The decimal text of a number

A number is written with the fewest decimal digits that read back to it, and of those
digits with the ones nearest to it. The notation is positional for every size: there is
no exponent, and a whole number has no point.

The digits are found exactly. The numbers that read back to `m * 2 ^ e` form an interval
around it, which contains its ends if `m` is even. Going down the powers of ten, the first
one that has a multiple in the interval gives the last digit's place.
-/

namespace PoseLang.Decimal

/-- A natural number `digits * 10 ^ place`. -/
structure Digits where
  /-- All digits, as one number. -/
  digits : Nat
  /-- The power of ten of the last digit. -/
  place : Int
deriving DecidableEq, Repr

/-- The numbers that read back to one float, as quarters of `2 ^ exponent`: from `low` to `high`
around `mid`. -/
structure Interval where
  low : Nat
  mid : Nat
  high : Nat
  /-- The power of two that the three are counted in. -/
  exponent : Int
  /-- Whether the ends belong to the interval. -/
  closed : Bool
deriving DecidableEq, Repr

/-- The interval of `m * 2 ^ e`. Below a power of two the neighbour is twice as near. -/
def Interval.around (m : Nat) (e : Int) : Interval where
  low := if m = 1 <<< 52 ∧ -1074 < e then 4 * m - 1 else 4 * m - 2
  mid := 4 * m
  high := 4 * m + 2
  exponent := e - 2
  closed := m % 2 = 0

/-- How many units `2 ^ exponent` make up one `10 ^ place`, as a fraction of natural numbers. -/
def Interval.unit (i : Interval) (place : Int) : Nat × Nat :=
  (Nat.pow 10 place.toNat <<< (-i.exponent).toNat, Nat.pow 10 (-place).toNat <<< i.exponent.toNat)

/-- The multiple of `10 ^ place` in the interval that is nearest to its middle, the larger of two
equally near ones. -/
def Interval.multiple? (i : Interval) (place : Int) : Option Nat :=
  let (num, den) := i.unit place
  let mid := i.mid * den
  let inside (c : Nat) : Bool :=
    if i.closed then i.low * den ≤ c * num && c * num ≤ i.high * den
    else i.low * den < c * num && c * num < i.high * den
  let below := mid / num
  let above := below + 1
  match inside below, inside above with
  | true, true => some (if mid - below * num < above * num - mid then below else above)
  | true, false => some below
  | false, true => some above
  | false, false => none

/-- The largest power of ten, from `place` down, that has a multiple in the interval. -/
def Interval.shortest (i : Interval) : Nat → Int → Digits
  | 0, place => ⟨i.mid * (i.unit place).2 / (i.unit place).1, place⟩
  | steps + 1, place =>
    match i.multiple? place with
    | some c => ⟨c, place⟩
    | none => i.shortest steps (place - 1)

/-- A place above the leading digit of `m * 2 ^ e`, since `log 2 < 0.30103` in base ten. -/
def leadingPlace (m : Nat) (e : Int) : Int :=
  (Nat.log2 m + e + 1) * 30103 / 100000 + 2

/-- The shortest digits of `m * 2 ^ e`, for `m > 0`. Seventeen digits always suffice. -/
def shortest (m : Nat) (e : Int) : Digits :=
  (Interval.around m e).shortest 24 (leadingPlace m e)

/-- The digits without the zeros at their end, given at most `steps` of them. -/
def Digits.trim : Nat → Digits → Digits
  | 0, d => d
  | steps + 1, d =>
    if d.digits ≠ 0 ∧ d.digits % 10 = 0 then trim steps ⟨d.digits / 10, d.place + 1⟩ else d

/-- The positional text: zeros fill the places between the digits and the point. -/
def Digits.positional (d : Digits) : String :=
  let text := Nat.toDigits 10 d.digits
  match d.place with
  | .ofNat k => String.ofList (text ++ List.replicate k '0')
  | .negSucc k =>
    let padded := List.replicate (k + 2 - text.length) '0' ++ text
    let whole := padded.length - (k + 1)
    String.ofList (padded.take whole ++ '.' :: padded.drop whole)

end PoseLang.Decimal

namespace PoseLang

open Decimal in
/-- The text of a number in a message. -/
def numberText (x : Float) : String :=
  match FloatParts.of x with
  | .nan => "NaN"
  | .infinite false => "inf"
  | .infinite true => "-inf"
  | .zero false => "0"
  | .zero true => "-0"
  | .finite false m e => ((shortest m e).trim 20).positional
  | .finite true m e => "-" ++ ((shortest m e).trim 20).positional

end PoseLang
