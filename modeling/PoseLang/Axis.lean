/-!
# Axes

A bone moves on six axes: three angles in degrees and three shifts in model units. Each
written magnitude reaches its axis with a sign.
-/

namespace PoseLang

/-- One axis of a bone's motion. -/
inductive Axis where
  /-- The angle about X; forward is positive. -/
  | pitch
  /-- The angle about Y; left is positive. -/
  | yaw
  /-- The angle about Z; right is positive. -/
  | roll
  | translateX
  | translateY
  | translateZ
deriving DecidableEq, Repr, Inhabited

namespace Axis

/-- The axes in order. -/
def all : List Axis := [pitch, yaw, roll, translateX, translateY, translateZ]

/-- The place of an axis in the order. -/
def index : Axis → Fin 6
  | pitch => 0
  | yaw => 1
  | roll => 2
  | translateX => 3
  | translateY => 4
  | translateZ => 5

/-- The name of an axis in messages. -/
def name : Axis → String
  | pitch => "pitch"
  | yaw => "yaw"
  | roll => "roll"
  | translateX => "translate_x"
  | translateY => "translate_y"
  | translateZ => "translate_z"

/-- The axis of this name. -/
def ofName? (name : String) : Option Axis := all.find? (·.name = name)

/-- Whether the axis is an angle. -/
def isAngle : Axis → Bool
  | pitch | yaw | roll => true
  | translateX | translateY | translateZ => false

theorem mem_all (x : Axis) : x ∈ all := by cases x <;> decide

theorem nodup_all : all.Nodup := by decide

theorem index_lt (x : Axis) : x.index.val < 6 := x.index.isLt

theorem getElem?_index (x : Axis) : all[x.index.val]? = some x := by cases x <;> rfl

theorem index_inj {x y : Axis} (h : x.index = y.index) : x = y := by
  have hx := getElem?_index x
  rw [h, getElem?_index y] at hx
  exact (Option.some.inj hx).symm

end Axis

/-- The sense in which a magnitude is applied. -/
inductive Sign where
  | positive
  | negative
deriving DecidableEq, Repr, Inhabited

/-- The magnitude with the sign. -/
def Sign.apply : Sign → Float → Float
  | positive, x => x
  | negative, x => -x

end PoseLang
