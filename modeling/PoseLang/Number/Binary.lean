/-!
# Binary floating-point numbers, taken apart

A float that is neither infinite nor a NaN is an integer times a power of two, and its bits
give both (`FloatParts.of`). On that form three things are exact integer work: the nearest
integer of a float (`nearestInteger?`), the conversions between a float and the 32-bit patterns
of a motion stream (`Single.ofFloat`, `Single.toFloat`), and the key by which times are put in
order (`orderKey`).
-/

namespace PoseLang

open Float.Model (UnpackedFloat Format)

/-- What a float is. -/
inductive FloatParts where
  | nan
  | infinite (negative : Bool)
  | zero (negative : Bool)
  /-- The number `m * 2 ^ e`, or its negative; `m` has 53 bits, or fewer if `e = -1074`. -/
  | finite (negative : Bool) (m : Nat) (e : Int)
deriving DecidableEq, Repr

/-- Takes a float apart: one bit for the sign, 11 for the exponent, 52 for the fraction. -/
def FloatParts.of (x : Float) : FloatParts :=
  let bits := x.toBits
  let negative := bits >>> 63 == 1
  let exponent := ((bits >>> 52) &&& 0x7FF).toNat
  let fraction := (bits &&& 0xFFFFFFFFFFFFF).toNat
  if exponent = 2047 then
    if fraction = 0 then infinite negative else nan
  else if exponent = 0 then
    if fraction = 0 then zero negative else finite negative fraction (-1074)
  else finite negative (1 <<< 52 + fraction) (exponent - 1075)

/-! ### The nearest integer -/

/-- The integer nearest to `m * 2 ^ e`; a half goes up. -/
def nearestNat (m : Nat) (e : Int) : Nat :=
  match e with
  | .ofNat k => m <<< k
  | .negSucc k => (m + 1 <<< k) >>> (k + 1)

/-- The integer nearest to a float, a half going away from zero; a NaN or an infinity has none. -/
def nearestInteger? (x : Float) : Option Int :=
  match FloatParts.of x with
  | .nan | .infinite _ => none
  | .zero _ => some 0
  | .finite false m e => some (nearestNat m e)
  | .finite true m e => some (-(nearestNat m e : Int))

/-! ### Single precision -/

/-- A number of a motion stream: the 32 bits of a single-precision float, a NaN's payload included. -/
structure Single where
  /-- The bit pattern. -/
  bits : UInt32
deriving DecidableEq, Repr, Inhabited

namespace Single

/-- The integer nearest to `m / 2 ^ k`; a tie goes to the even one. -/
def roundEven (m k : Nat) : Nat :=
  let unit := 1 <<< k
  let below := m / unit
  let rest := m % unit
  if 2 * rest < unit then below
  else if unit < 2 * rest then below + 1
  else below + below % 2

/-- The bits of the single-precision number nearest to `m * 2 ^ e`, for the parts of a float. A
single has 24 bits, and its last bit stands for `2 ^ (-149)` or more. The exponent field lies
above the fraction, so a carry out of the fraction raises the exponent and in the end gives
infinity. -/
def magnitude (m : Nat) (e : Int) : Nat :=
  let last := max (e + 29) (-149)
  min 0x7F800000 ((last + 149).toNat <<< 23 + roundEven m (last - e).toNat)

/-- The sign bit over the other bits. -/
def signed (negative : Bool) (magnitude : Nat) : Single :=
  ⟨.ofNat (if negative then 0x80000000 + magnitude else magnitude)⟩

/-- The nearest single-precision number, a tie going to the even one and an overflow giving the
infinity of the same sign. -/
def ofFloat (x : Float) : Single :=
  match FloatParts.of x with
  | .nan => ⟨0x7FC00000⟩
  | .infinite negative => signed negative 0x7F800000
  | .zero negative => signed negative 0
  | .finite negative m e => signed negative (magnitude m e)

/-- The same number in double precision, without loss. -/
def toFloat (x : Single) : Float :=
  .ofModel (Float.Model.pack
    (match (Float32.Model.ofBits x.bits).unpack with
    | .finite s m e _ => UnpackedFloat.round Format.binary64 s m e
    | u => u))

end Single

/-! ### The order of times -/

/-- A key that puts floats in order: `-∞`, the negative numbers, `-0`, `0`, the positive numbers,
`∞`, and a NaN last. -/
def orderKey (x : Float) : Nat :=
  let b := x.toBits.toNat
  if b < 1 <<< 63 then 1 <<< 63 + b else UInt64.size - 1 - b

end PoseLang
