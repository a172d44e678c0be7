import Mathlib.Analysis.SpecialFunctions.Trigonometric.Basic
import Mathlib.Data.ZMod.Defs
import Mathlib.RingTheory.Nilpotent.Defs
import Mathlib.Tactic.LinearCombination
import PoseLang.Rotation

/-!
# The angles of a rotation

A motion is written with the quaternion of three angles, and its angles are read from entries of the rotation matrix.
Here both formulas are taken over any commutative ring, where an angle is a cosine and a sine. They fit together: the
entries that are read are the sines and cosines that were written, in products from which they can be told.

A quaternion turns a point `v` to `q v q*` (`Quaternion.turn`). The turn of a product is one turn after the other, and
the turns about the axes are the plane rotations of the whole angle, so all that is said about the matrix comes from
three plane rotations in a row.

What is proved:

* a product turns as its factors do (`Quaternion.turn_mul`), and has the product of their lengths
  (`Quaternion.normSq_mul`);
* the quaternion of three angles rolls, pitches and then yaws a point (`Quaternion.turn_ofHalfAngles`), and the entries
  of its matrix are coordinates of the turned axes (`Quaternion.turn_axes`);
* if the pitch is a right angle up or down, the yaw that is read is the difference or the sum of yaw and roll
  (`Quaternion.uprightYaw_of_up`, `Quaternion.uprightYaw_of_down`), and replaces both, but for multiples of the cosine
  of the pitch (`Quaternion.turn_uprightYaw`);
* so writer and reader agree, in the upright case where that cosine is 0 (`Quaternion.entries_ofHalfAngles`). In a ring
  with nilpotent numbers a right angle can have another cosine, and then the yaw that is read does not replace the roll
  (`Quaternion.turn_ne_uprightYaw`).
-/

namespace PoseLang

universe u

variable {R : Type u} [CommRing R]

attribute [ext] Quaternion

/-! ### Angles -/

/-- An angle, as its cosine and sine. -/
@[ext]
structure Angle (R : Type u) where
  cos : R
  sin : R
deriving DecidableEq

namespace Angle

instance : Add (Angle R) := ⟨fun a b => ⟨a.cos * b.cos - a.sin * b.sin, a.sin * b.cos + a.cos * b.sin⟩⟩

instance : Sub (Angle R) := ⟨fun a b => ⟨a.cos * b.cos + a.sin * b.sin, a.sin * b.cos - a.cos * b.sin⟩⟩

@[simp] theorem cos_add (a b : Angle R) : (a + b).cos = a.cos * b.cos - a.sin * b.sin := rfl

@[simp] theorem sin_add (a b : Angle R) : (a + b).sin = a.sin * b.cos + a.cos * b.sin := rfl

@[simp] theorem cos_sub (a b : Angle R) : (a - b).cos = a.cos * b.cos + a.sin * b.sin := rfl

@[simp] theorem sin_sub (a b : Angle R) : (a - b).sin = a.sin * b.cos - a.cos * b.sin := rfl

/-! A point turned in one of the three planes; the point is `x i + y j + z k`. -/

/-- Turned about the X axis. -/
def aboutX (a : Angle R) (v : Quaternion R) : Quaternion R :=
  ⟨v.x, a.cos * v.y - a.sin * v.z, a.sin * v.y + a.cos * v.z, v.w⟩

/-- Turned about the Y axis. -/
def aboutY (a : Angle R) (v : Quaternion R) : Quaternion R :=
  ⟨a.cos * v.x + a.sin * v.z, v.y, a.cos * v.z - a.sin * v.x, v.w⟩

/-- Turned about the Z axis. -/
def aboutZ (a : Angle R) (v : Quaternion R) : Quaternion R :=
  ⟨a.cos * v.x - a.sin * v.y, a.sin * v.x + a.cos * v.y, v.z, v.w⟩

end Angle

namespace HalfAngle

/-- The square of the cosine and that of the sine are 1 together. -/
def OnCircle (h : HalfAngle R) : Prop := h.cos ^ 2 + h.sin ^ 2 = 1

instance [DecidableEq R] (h : HalfAngle R) : Decidable h.OnCircle := inferInstanceAs (Decidable (_ = _))

/-- The whole angle. -/
def angle (h : HalfAngle R) : Angle R := ⟨h.cos ^ 2 - h.sin ^ 2, 2 * h.sin * h.cos⟩

/-- Half of no angle. -/
def zero : HalfAngle R := ⟨1, 0⟩

theorem onCircle_zero : (zero : HalfAngle R).OnCircle := by simp [OnCircle, zero]

variable {h k : HalfAngle R}

/-- Half of the sum of two angles. -/
theorem exists_add (hh : h.OnCircle) (hk : k.OnCircle) :
    ∃ l : HalfAngle R, l.OnCircle ∧ l.angle = h.angle + k.angle := by
  refine ⟨⟨h.cos * k.cos - h.sin * k.sin, h.sin * k.cos + h.cos * k.sin⟩, ?_, ?_⟩
  · unfold OnCircle at *
    linear_combination (k.cos ^ 2 + k.sin ^ 2) * hh + hk
  · ext
    · simp only [angle, Angle.cos_add]
      ring
    · simp only [angle, Angle.sin_add]
      ring

/-- Half of the difference of two angles. -/
theorem exists_sub (hh : h.OnCircle) (hk : k.OnCircle) :
    ∃ l : HalfAngle R, l.OnCircle ∧ l.angle = h.angle - k.angle := by
  have hneg : (HalfAngle.mk k.cos (-k.sin)).OnCircle := by
    simpa [OnCircle] using hk
  obtain ⟨l, hl, hangle⟩ := exists_add hh hneg
  refine ⟨l, hl, hangle.trans ?_⟩
  ext
  · simp only [angle, Angle.cos_add, Angle.cos_sub]
    ring
  · simp only [angle, Angle.sin_add, Angle.sin_sub]
    ring

/-- The squares of the cosine and the sine of the whole angle are 1 together, too. -/
theorem angle_sq (hh : h.OnCircle) : h.angle.cos ^ 2 + h.angle.sin ^ 2 = 1 := by
  unfold OnCircle at hh
  simp only [angle]
  linear_combination (h.cos ^ 2 + h.sin ^ 2 + 1) * hh

/-- A right angle up or down has a nilpotent cosine. -/
theorem cos_sq_of_upright (hh : h.OnCircle) (hsin : h.angle.sin ^ 2 = 1) : h.angle.cos ^ 2 = 0 := by
  linear_combination angle_sq hh - hsin

end HalfAngle

/-! ### Turns -/

namespace Quaternion

@[simp] theorem mul_x (a b : Quaternion R) : (a * b).x = a.w * b.x + a.x * b.w + a.y * b.z - a.z * b.y := rfl

@[simp] theorem mul_y (a b : Quaternion R) : (a * b).y = a.w * b.y - a.x * b.z + a.y * b.w + a.z * b.x := rfl

@[simp] theorem mul_z (a b : Quaternion R) : (a * b).z = a.w * b.z + a.x * b.y - a.y * b.x + a.z * b.w := rfl

@[simp] theorem mul_w (a b : Quaternion R) : (a * b).w = a.w * b.w - a.x * b.x - a.y * b.y - a.z * b.z := rfl

/-- The square of the length. -/
def normSq (q : Quaternion R) : R := q.x ^ 2 + q.y ^ 2 + q.z ^ 2 + q.w ^ 2

/-- The opposite turn. -/
def conj (q : Quaternion R) : Quaternion R := ⟨-q.x, -q.y, -q.z, q.w⟩

/-- Where a quaternion of length 1 turns a point. -/
def turn (q v : Quaternion R) : Quaternion R := q * v * q.conj

theorem normSq_mul (a b : Quaternion R) : (a * b).normSq = a.normSq * b.normSq := by
  simp only [normSq, mul_x, mul_y, mul_z, mul_w]
  ring

protected theorem mul_assoc (a b c : Quaternion R) : a * b * c = a * (b * c) := by
  ext <;> simp only [mul_x, mul_y, mul_z, mul_w] <;> ring

theorem conj_mul (a b : Quaternion R) : (a * b).conj = b.conj * a.conj := by
  ext <;> simp only [conj, mul_x, mul_y, mul_z, mul_w] <;> ring

/-- A product turns by its second factor, and then by its first. -/
theorem turn_mul (a b v : Quaternion R) : (a * b).turn v = a.turn (b.turn v) := by
  simp only [turn, conj_mul, Quaternion.mul_assoc]

section

variable {h : HalfAngle R} (hh : h.OnCircle)

include hh

theorem turn_aboutX (v : Quaternion R) : h.aboutX.turn v = h.angle.aboutX v := by
  unfold HalfAngle.OnCircle at hh
  ext <;> simp only [turn, conj, HalfAngle.aboutX, HalfAngle.angle, Angle.aboutX, mul_x, mul_y, mul_z, mul_w]
  · linear_combination v.x * hh
  · ring
  · ring
  · linear_combination v.w * hh

theorem turn_aboutY (v : Quaternion R) : h.aboutY.turn v = h.angle.aboutY v := by
  unfold HalfAngle.OnCircle at hh
  ext <;> simp only [turn, conj, HalfAngle.aboutY, HalfAngle.angle, Angle.aboutY, mul_x, mul_y, mul_z, mul_w]
  · ring
  · linear_combination v.y * hh
  · ring
  · linear_combination v.w * hh

theorem turn_aboutZ (v : Quaternion R) : h.aboutZ.turn v = h.angle.aboutZ v := by
  unfold HalfAngle.OnCircle at hh
  ext <;> simp only [turn, conj, HalfAngle.aboutZ, HalfAngle.angle, Angle.aboutZ, mul_x, mul_y, mul_z, mul_w]
  · ring
  · ring
  · linear_combination v.z * hh
  · linear_combination v.w * hh

end

section

variable {pitch yaw roll : HalfAngle R} (hp : pitch.OnCircle) (hy : yaw.OnCircle) (hr : roll.OnCircle)

include hp hy hr

/-- A point rolls, pitches and then yaws. -/
theorem turn_ofHalfAngles (v : Quaternion R) :
    (ofHalfAngles pitch yaw roll).turn v = yaw.angle.aboutY (pitch.angle.aboutX (roll.angle.aboutZ v)) := by
  rw [ofHalfAngles, turn_mul, turn_mul, turn_aboutZ hr, turn_aboutX hp, turn_aboutY hy]

theorem normSq_ofHalfAngles : (ofHalfAngles pitch yaw roll).normSq = 1 := by
  have hx : pitch.aboutX.normSq = 1 := by
    simpa [normSq, HalfAngle.aboutX, HalfAngle.OnCircle, add_comm] using hp
  have hyaw : yaw.aboutY.normSq = 1 := by
    simpa [normSq, HalfAngle.aboutY, HalfAngle.OnCircle, add_comm] using hy
  have hz : roll.aboutZ.normSq = 1 := by
    simpa [normSq, HalfAngle.aboutZ, HalfAngle.OnCircle, add_comm] using hr
  rw [ofHalfAngles, normSq_mul, normSq_mul, hx, hyaw, hz, one_mul, one_mul]

end

/-- The entries of the matrix are coordinates of the turned axes. -/
theorem turn_axes (q : Quaternion R) :
    q.turn ⟨1, 0, 0, 0⟩ = ⟨q.entries.m00, q.entries.m10, q.entries.m20, 0⟩ ∧
    (q.turn ⟨0, 1, 0, 0⟩).y = q.entries.m11 ∧
    q.turn ⟨0, 0, 1, 0⟩ = ⟨q.entries.m02, q.entries.m12, q.entries.m22, 0⟩ := by
  refine ⟨?_, ?_, ?_⟩
  · ext <;> simp only [turn, conj, entries, mul_x, mul_y, mul_z, mul_w] <;> ring
  · simp only [turn, conj, entries, mul_x, mul_y, mul_z, mul_w]
    ring
  · ext <;> simp only [turn, conj, entries, mul_x, mul_y, mul_z, mul_w] <;> ring

/-- The entries that are read as sines and cosines of pitch, yaw and roll. -/
theorem entries_of_angles {pitch yaw roll : HalfAngle R} (hp : pitch.OnCircle) (hy : yaw.OnCircle)
    (hr : roll.OnCircle) :
    let m := (ofHalfAngles pitch yaw roll).entries
    m.m12 = -pitch.angle.sin ∧ m.m02 = yaw.angle.sin * pitch.angle.cos ∧ m.m22 = yaw.angle.cos * pitch.angle.cos ∧
    m.m10 = pitch.angle.cos * roll.angle.sin ∧ m.m11 = pitch.angle.cos * roll.angle.cos := by
  intro m
  obtain ⟨hi, hj, hk⟩ := turn_axes (ofHalfAngles pitch yaw roll)
  simp only [turn_ofHalfAngles hp hy hr, Quaternion.ext_iff, Angle.aboutX, Angle.aboutY, Angle.aboutZ] at hi hj hk
  obtain ⟨-, h10, -, -⟩ := hi
  obtain ⟨h02, h12, h22, -⟩ := hk
  refine ⟨?_, ?_, ?_, ?_, ?_⟩
  · linear_combination -h12
  · linear_combination -h02
  · linear_combination -h22
  · linear_combination -h10
  · linear_combination -hj

/-! ### A pitch of a right angle -/

/-- Two quaternions turn every point alike, up to nilpotent numbers. -/
def SameTurn (q q' : Quaternion R) : Prop :=
  ∀ v, IsNilpotent ((q.turn v).x - (q'.turn v).x) ∧ IsNilpotent ((q.turn v).y - (q'.turn v).y) ∧
    IsNilpotent ((q.turn v).z - (q'.turn v).z)

/-- The yaw that is read where the pitch is a right angle. -/
def uprightYaw (q : Quaternion R) : Angle R := ⟨q.entries.m00, -q.entries.m20⟩

section

variable {pitch yaw roll : HalfAngle R} (hp : pitch.OnCircle) (hy : yaw.OnCircle) (hr : roll.OnCircle)

include hp hy hr

theorem uprightYaw_ofHalfAngles :
    (ofHalfAngles pitch yaw roll).uprightYaw =
      ⟨yaw.angle.cos * roll.angle.cos + pitch.angle.sin * yaw.angle.sin * roll.angle.sin,
       yaw.angle.sin * roll.angle.cos - pitch.angle.sin * yaw.angle.cos * roll.angle.sin⟩ := by
  have hx := (turn_axes (ofHalfAngles pitch yaw roll)).1
  rw [turn_ofHalfAngles hp hy hr, Quaternion.ext_iff] at hx
  simp only [Angle.aboutX, Angle.aboutY, Angle.aboutZ] at hx
  obtain ⟨h00, -, h20, -⟩ := hx
  ext
  · simp only [uprightYaw]
    linear_combination -h00
  · simp only [uprightYaw]
    linear_combination h20

/-- Whatever the roll, the pitch and the yaw that is read turn a point to the same place, but for the cosine of the
pitch. -/
theorem turn_uprightYaw (hsin : pitch.angle.sin ^ 2 = 1) {read : HalfAngle R} (hread : read.OnCircle)
    (hangle : read.angle = (ofHalfAngles pitch yaw roll).uprightYaw) (v : Quaternion R) :
    ∃ d : Quaternion R,
      (ofHalfAngles pitch yaw roll).turn v =
        ⟨((ofHalfAngles pitch read .zero).turn v).x + pitch.angle.cos * d.x,
         ((ofHalfAngles pitch read .zero).turn v).y + pitch.angle.cos * d.y,
         ((ofHalfAngles pitch read .zero).turn v).z + pitch.angle.cos * d.z,
         ((ofHalfAngles pitch read .zero).turn v).w⟩ := by
  have hzero : (HalfAngle.zero : HalfAngle R).angle.aboutZ v = v := by
    ext <;> simp [HalfAngle.zero, HalfAngle.angle, Angle.aboutZ]
  rw [turn_ofHalfAngles hp hy hr, turn_ofHalfAngles hp hread HalfAngle.onCircle_zero, hzero, hangle,
    uprightYaw_ofHalfAngles hp hy hr]
  simp only [Angle.aboutX, Angle.aboutY, Angle.aboutZ]
  refine ⟨⟨(yaw.angle.sin - read.angle.sin) * v.z,
    roll.angle.sin * v.x + roll.angle.cos * v.y - v.y, (yaw.angle.cos - read.angle.cos) * v.z, 0⟩, ?_⟩
  rw [hangle, uprightYaw_ofHalfAngles hp hy hr]
  ext
  · linear_combination yaw.angle.cos * roll.angle.sin * v.y * hsin
  · ring
  · linear_combination -yaw.angle.sin * roll.angle.sin * v.y * hsin
  · rfl

theorem uprightYaw_of_up (hsin : pitch.angle.sin = 1) :
    (ofHalfAngles pitch yaw roll).uprightYaw = yaw.angle - roll.angle := by
  rw [uprightYaw_ofHalfAngles hp hy hr, hsin]
  ext <;> simp

theorem uprightYaw_of_down (hsin : pitch.angle.sin = -1) :
    (ofHalfAngles pitch yaw roll).uprightYaw = yaw.angle + roll.angle := by
  rw [uprightYaw_ofHalfAngles hp hy hr, hsin]
  ext
  · simp only [Angle.cos_add]
    ring
  · simp only [Angle.sin_add]
    ring

/-- The yaw that is read has a half angle. -/
theorem exists_uprightYaw (hsin : pitch.angle.sin = 1 ∨ pitch.angle.sin = -1) :
    ∃ read : HalfAngle R, read.OnCircle ∧ read.angle = (ofHalfAngles pitch yaw roll).uprightYaw := by
  rcases hsin with hsin | hsin
  · rw [uprightYaw_of_up hp hy hr hsin]
    exact HalfAngle.exists_sub hy hr
  · rw [uprightYaw_of_down hp hy hr hsin]
    exact HalfAngle.exists_add hy hr

/-- The pitch and the yaw that is read are the same rotation, up to nilpotent numbers. -/
theorem sameTurn_uprightYaw (hsin : pitch.angle.sin ^ 2 = 1) {read : HalfAngle R} (hread : read.OnCircle)
    (hangle : read.angle = (ofHalfAngles pitch yaw roll).uprightYaw) :
    SameTurn (ofHalfAngles pitch read .zero) (ofHalfAngles pitch yaw roll) := by
  have hcos : pitch.angle.cos ^ 2 = 0 := HalfAngle.cos_sq_of_upright hp hsin
  have hnilpotent (x d : R) : IsNilpotent (x - (x + pitch.angle.cos * d)) :=
    ⟨2, by linear_combination d ^ 2 * hcos⟩
  intro v
  obtain ⟨d, hd⟩ := turn_uprightYaw hp hy hr hsin hread hangle v
  rw [hd]
  exact ⟨hnilpotent _ _, hnilpotent _ _, hnilpotent _ _⟩

/-- Where the cosine of the pitch is 0, they are the same rotation. -/
theorem turn_eq_uprightYaw (hcos : pitch.angle.cos = 0) {read : HalfAngle R} (hread : read.OnCircle)
    (hangle : read.angle = (ofHalfAngles pitch yaw roll).uprightYaw) (v : Quaternion R) :
    (ofHalfAngles pitch read .zero).turn v = (ofHalfAngles pitch yaw roll).turn v := by
  have hsin : pitch.angle.sin ^ 2 = 1 := by
    linear_combination HalfAngle.angle_sq hp - pitch.angle.cos * hcos
  obtain ⟨d, hd⟩ := turn_uprightYaw hp hy hr hsin hread hangle v
  rw [hd, hcos]
  simp

end

/-- **The reader reads what was written.** Over any commutative ring, take half angles for pitch, yaw and roll, each
with a cosine and a sine on the unit circle. The quaternion that is written for them has length 1. The entries of its
matrix are those sines and cosines of the whole angles, in products, from which the reader takes pitch, yaw and roll. If
the sine of the pitch is 1 or -1, the yaw that is read is the difference or the sum of yaw and roll. If the cosine of
that pitch is 0, as it is in every ring without nilpotent numbers, this yaw together with the pitch and no roll is the
same rotation. Else it is the same up to nilpotent numbers. -/
theorem entries_ofHalfAngles {pitch yaw roll : HalfAngle R} (hp : pitch.OnCircle) (hy : yaw.OnCircle)
    (hr : roll.OnCircle) :
    let q := ofHalfAngles pitch yaw roll
    q.normSq = 1 ∧
    -q.entries.m12 = pitch.angle.sin ∧
    q.entries.m02 = yaw.angle.sin * pitch.angle.cos ∧ q.entries.m22 = yaw.angle.cos * pitch.angle.cos ∧
    q.entries.m10 = pitch.angle.cos * roll.angle.sin ∧ q.entries.m11 = pitch.angle.cos * roll.angle.cos ∧
    (pitch.angle.sin = 1 → -q.entries.m20 = (yaw.angle - roll.angle).sin ∧
      q.entries.m00 = (yaw.angle - roll.angle).cos) ∧
    (pitch.angle.sin = -1 → -q.entries.m20 = (yaw.angle + roll.angle).sin ∧
      q.entries.m00 = (yaw.angle + roll.angle).cos) ∧
    (pitch.angle.sin = 1 ∨ pitch.angle.sin = -1 →
      (∃ read : HalfAngle R, read.OnCircle ∧ read.angle = ⟨q.entries.m00, -q.entries.m20⟩) ∧
      ∀ read : HalfAngle R, read.OnCircle → read.angle = ⟨q.entries.m00, -q.entries.m20⟩ →
        SameTurn (ofHalfAngles pitch read .zero) q ∧
        (pitch.angle.cos = 0 ∨ IsReduced R → ∀ v, (ofHalfAngles pitch read .zero).turn v = q.turn v)) := by
  obtain ⟨h12, h02, h22, h10, h11⟩ := entries_of_angles hp hy hr
  refine ⟨normSq_ofHalfAngles hp hy hr, neg_eq_iff_eq_neg.mpr h12, h02, h22, h10, h11, ?_, ?_, ?_⟩
  · intro hsin
    rw [← uprightYaw_of_up hp hy hr hsin]
    exact ⟨rfl, rfl⟩
  · intro hsin
    rw [← uprightYaw_of_down hp hy hr hsin]
    exact ⟨rfl, rfl⟩
  · intro hsin
    refine ⟨exists_uprightYaw hp hy hr hsin, fun read hread hangle => ?_⟩
    have hsq : pitch.angle.sin ^ 2 = 1 := by
      rcases hsin with hsin | hsin <;> simp [hsin]
    refine ⟨sameTurn_uprightYaw hp hy hr hsq hread hangle, fun hring => ?_⟩
    have hcos : pitch.angle.cos = 0 := by
      rcases hring with hcos | hreduced
      · exact hcos
      · exact (pow_eq_zero_iff two_ne_zero).mp (HalfAngle.cos_sq_of_upright hp hsq)
    exact turn_eq_uprightYaw hp hy hr hcos hread hangle

/-- In some rings the yaw that is read is not the same rotation. Modulo 49 there is a pitch with the sine 1 and the
cosine 21, and the square of 21 is 0. With a roll, the X axis is turned to the height 21. With the pitch, the yaw that
is read and no roll, it is turned to the height 0. -/
theorem turn_ne_uprightYaw :
    let pitch : HalfAngle (ZMod 49) := ⟨33, 26⟩
    let yaw : HalfAngle (ZMod 49) := ⟨1, 0⟩
    let roll : HalfAngle (ZMod 49) := ⟨5, 5⟩
    let read : HalfAngle (ZMod 49) := ⟨5, -5⟩
    let q := ofHalfAngles pitch yaw roll
    (pitch.OnCircle ∧ yaw.OnCircle ∧ roll.OnCircle ∧ read.OnCircle) ∧
    pitch.angle.sin = 1 ∧ pitch.angle.cos = 21 ∧ read.angle = ⟨q.entries.m00, -q.entries.m20⟩ ∧
    q.entries.m10 = 21 ∧ (ofHalfAngles pitch read .zero).entries.m10 = 0 ∧
    (ofHalfAngles pitch read .zero).turn ⟨1, 0, 0, 0⟩ ≠ q.turn ⟨1, 0, 0, 0⟩ := by
  decide

end Quaternion

/-! ### Real angles -/

/-- Half of a real angle. -/
noncomputable def HalfAngle.ofReal (θ : ℝ) : HalfAngle ℝ := ⟨Real.cos (θ / 2), Real.sin (θ / 2)⟩

theorem HalfAngle.onCircle_ofReal (θ : ℝ) : (HalfAngle.ofReal θ).OnCircle := Real.cos_sq_add_sin_sq (θ / 2)

theorem HalfAngle.angle_ofReal (θ : ℝ) : (HalfAngle.ofReal θ).angle = ⟨Real.cos θ, Real.sin θ⟩ := by
  have hθ : θ = 2 * (θ / 2) := by ring
  ext
  · conv_rhs => rw [hθ, Real.cos_two_mul']
    rfl
  · conv_rhs => rw [hθ, Real.sin_two_mul]
    rfl

open Real in
/-- Looking straight up, a yaw of 90 degrees and a roll of 30 are a yaw of 60. -/
theorem Quaternion.turn_straightUp :
    (ofHalfAngles (.ofReal (π / 2)) (.ofReal (π / 3)) .zero).turn =
      (ofHalfAngles (.ofReal (π / 2)) (.ofReal (π / 2)) (.ofReal (π / 6))).turn := by
  have hsin : (HalfAngle.ofReal (π / 2)).angle.sin = 1 := by
    rw [HalfAngle.angle_ofReal, Real.sin_pi_div_two]
  obtain ⟨-, -, -, -, -, -, hup, -, hsame⟩ := entries_ofHalfAngles (HalfAngle.onCircle_ofReal (π / 2))
    (HalfAngle.onCircle_ofReal (π / 2)) (HalfAngle.onCircle_ofReal (π / 6))
  obtain ⟨h20, h00⟩ := hup hsin
  refine funext (((hsame (.inl hsin)).2 (.ofReal (π / 3)) (HalfAngle.onCircle_ofReal _) ?_).2 (.inr inferInstance))
  rw [h20, h00]
  simp only [HalfAngle.angle_ofReal, Angle.cos_sub, Angle.sin_sub, ← Real.cos_sub, ← Real.sin_sub]
  rw [show π / 2 - π / 6 = π / 3 by ring]

end PoseLang
