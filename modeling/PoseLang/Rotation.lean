/-!
# Rotations

A bone's rotation is written as three angles and stored as a quaternion. The bone yaws about Y,
then pitches about X, then rolls about Z, each in the frame that the turns before it left, so
the rotation is the product of the three in that order.

The product and the entries of the rotation matrix are polynomials, and are defined over any
type with the operations; the program runs them on floats, each operation rounded on its own
and from left to right.
-/

namespace PoseLang

universe u

/-- A quaternion `w + x i + y j + z k`. -/
structure Quaternion (α : Type u) where
  x : α
  y : α
  z : α
  w : α
deriving DecidableEq, Repr

/-- The cosine and sine of half an angle. -/
structure HalfAngle (α : Type u) where
  cos : α
  sin : α
deriving DecidableEq, Repr

/-- The entries of a rotation matrix that give its angles; `m12` is in row 1, column 2. -/
structure RotationEntries (α : Type u) where
  m00 : α
  m02 : α
  m10 : α
  m11 : α
  m12 : α
  m20 : α
  m22 : α
deriving DecidableEq, Repr

/-! ### The formulas -/

section Formulas

variable {α : Type u} [Add α] [Sub α] [Mul α]

/-- The product: first the turn `b`, then the turn `a`. -/
def Quaternion.mul (a b : Quaternion α) : Quaternion α where
  x := a.w * b.x + a.x * b.w + a.y * b.z - a.z * b.y
  y := a.w * b.y - a.x * b.z + a.y * b.w + a.z * b.x
  z := a.w * b.z + a.x * b.y - a.y * b.x + a.z * b.w
  w := a.w * b.w - a.x * b.x - a.y * b.y - a.z * b.z

instance : Mul (Quaternion α) := ⟨Quaternion.mul⟩

/-- The matrix of the rotation. -/
def Quaternion.entries [OfNat α 2] (q : Quaternion α) : RotationEntries α where
  m00 := q.w * q.w + q.x * q.x - q.y * q.y - q.z * q.z
  m02 := q.w * q.y * 2 + q.x * q.z * 2
  m10 := q.w * q.z * 2 + q.x * q.y * 2
  m11 := q.w * q.w - q.x * q.x + q.y * q.y - q.z * q.z
  m12 := q.y * q.z * 2 - q.w * q.x * 2
  m20 := q.x * q.z * 2 - q.w * q.y * 2
  m22 := q.w * q.w - q.x * q.x - q.y * q.y + q.z * q.z

variable [OfNat α 0] [OfNat α 1]

/-- The turn about X by twice the half angle. -/
def HalfAngle.aboutX (h : HalfAngle α) : Quaternion α := ⟨1 * h.sin, 0 * h.sin, 0 * h.sin, h.cos⟩

/-- The turn about Y by twice the half angle. -/
def HalfAngle.aboutY (h : HalfAngle α) : Quaternion α := ⟨0 * h.sin, 1 * h.sin, 0 * h.sin, h.cos⟩

/-- The turn about Z by twice the half angle. -/
def HalfAngle.aboutZ (h : HalfAngle α) : Quaternion α := ⟨0 * h.sin, 0 * h.sin, 1 * h.sin, h.cos⟩

/-- Yaw, pitch and roll together. -/
def Quaternion.ofHalfAngles (pitch yaw roll : HalfAngle α) : Quaternion α :=
  yaw.aboutY * pitch.aboutX * roll.aboutZ

end Formulas

/-! ### On floats -/

/-- Pitch, yaw and roll in degrees. -/
structure Euler where
  pitch : Float
  yaw : Float
  roll : Float
deriving DecidableEq, Repr

/-- The float nearest to π. -/
def pi : Float := 3.141592653589793

/-- Degrees as radians. -/
def toRadians (degrees : Float) : Float := degrees * (pi / 180)

/-- Radians as degrees. -/
def toDegrees (radians : Float) : Float := radians * (180 / pi)

/-- Half of an angle in degrees. -/
def HalfAngle.ofDegrees (degrees : Float) : HalfAngle Float :=
  let half := toRadians degrees / 2
  ⟨half.cos, half.sin⟩

/-- The quaternion of three angles. -/
def Euler.quaternion (e : Euler) : Quaternion Float :=
  .ofHalfAngles (.ofDegrees e.pitch) (.ofDegrees e.yaw) (.ofDegrees e.roll)

/-- The number, or the end of `[-1, 1]` that it is beyond; a NaN stays. -/
def clampUnit (x : Float) : Float :=
  if x < -1 then -1 else if 1 < x then 1 else x

/-- How near to 1 the sine of the pitch has to be for yaw and roll to be one turn. -/
def gimbalTolerance : Float := 1e-9

namespace Quaternion

/-- The quaternion scaled to length 1; zero gives NaNs. -/
def normalize (q : Quaternion Float) : Quaternion Float :=
  let n := ((q.x * q.x + q.z * q.z) + (q.y * q.y + q.w * q.w)).sqrt
  ⟨q.x / n, q.y / n, q.z / n, q.w / n⟩

/-- Angles of the rotation, the pitch between -90 and 90 degrees. At either end of that range yaw
and roll turn about one axis, and the roll is taken as 0. -/
def euler (q : Quaternion Float) : Euler :=
  let m := q.entries
  let sinPitch := clampUnit (-m.m12)
  let pitch := toDegrees sinPitch.asin
  if gimbalTolerance < 1 - sinPitch.abs then
    ⟨pitch, toDegrees (m.m02.atan2 m.m22), toDegrees (m.m10.atan2 m.m11)⟩
  else
    ⟨pitch, toDegrees ((-m.m20).atan2 m.m00), toDegrees 0⟩

end Quaternion

end PoseLang
