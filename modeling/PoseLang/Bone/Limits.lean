import PoseLang.Action
import PoseLang.Bone

/-!
# How far a bone may move

The table of limits: for each bone the largest magnitude of each motion, angles in degrees
and shifts in model units. A motion without an entry is not permitted.
-/

namespace PoseLang

/-- The version of the table. -/
def limitTableVersion : Nat := 1

/-- The limits of one bone. -/
structure MotionLimits where
  bendForward : Option Float := none
  bendBackward : Option Float := none
  /-- Both ways. -/
  turn : Option Float := none
  swayLeft : Option Float := none
  swayRight : Option Float := none
  /-- All six directions. -/
  translate : Option Float := none
deriving DecidableEq, Repr

namespace MotionLimits

/-- All rotations, the same amount to either side. -/
def ballJoint (forward backward turn sway : Float) : MotionLimits where
  bendForward := some forward
  bendBackward := some backward
  turn := some turn
  swayLeft := some sway
  swayRight := some sway

/-- A finger bends and sways, and does not turn. -/
def finger (backward sway : Float) : MotionLimits where
  bendForward := some 90
  bendBackward := some backward
  swayLeft := some sway
  swayRight := some sway

end MotionLimits

namespace Bone

open MotionLimits

/-- The limits of a limb. -/
def limbLimits : Limb → Side → MotionLimits
  | .shoulder, _ | .arm, _ => ballJoint 90 90 90 90
  | .elbow, _ => { bendForward := some 180 }
  | .wrist, _ => ballJoint 60 90 90 90
  | .leg, .left => { ballJoint 180 90 90 180 with swayRight := some 30 }
  | .leg, .right => { ballJoint 180 90 90 180 with swayLeft := some 30 }
  | .knee, _ => { bendBackward := some 180 }
  | .ankle, _ => ballJoint 60 60 90 30
  | .thumb, _ => finger 30 45
  | .index, _ | .middle, _ | .ring, _ | .pinky, _ => finger 30 30

/-- The row of the table for a bone. -/
def limits : Bone → MotionLimits
  | base => { ballJoint 90 90 180 180 with translate := some 100 }
  | center => { ballJoint 180 180 180 180 with translate := some 100 }
  | upperBody | lowerBody | waist => ballJoint 90 90 90 90
  | neck | head => ballJoint 60 90 90 60
  | paired limb side => limbLimits limb side

/-- The largest magnitude of a motion of the bone, if it is permitted. -/
def limit? (b : Bone) : Action → Direction → Option Float
  | .bend, .forward => b.limits.bendForward
  | .bend, .backward => b.limits.bendBackward
  | .turn, .left | .turn, .right => b.limits.turn
  | .sway, .left => b.limits.swayLeft
  | .sway, .right => b.limits.swayRight
  | .move, _ => b.limits.translate
  | _, _ => none

/-- Whether the bone may be moved away from its place. -/
def isMovable (b : Bone) : Bool := b.limits.translate.isSome

/-- A motion with a limit drives an axis. -/
theorem axis?_of_limit? {b : Bone} {a : Action} {d : Direction}
    (h : (b.limit? a d).isSome) : (a.axis? d).isSome := by
  cases a <;> cases d <;> simp_all [limit?, Action.axis?]

end Bone

end PoseLang
