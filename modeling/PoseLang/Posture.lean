import PoseLang.Bone
import PoseLang.Document.Checked

/-!
# Postures

Where the bones are: six numbers for each bone, all zero at rest. A checked pose gives a
posture by applying its statements in order to a body at rest, so what a pose does not mention
is at rest whatever other poses say.
-/

namespace PoseLang

/-- The place of one bone. -/
structure Transform where
  /-- The number of each axis: degrees for angles, model units for shifts. -/
  axes : Vector Float 6
deriving DecidableEq, Repr

namespace Transform

/-- All axes at zero. -/
def rest : Transform := ⟨.replicate 6 0⟩

/-- The number of an axis. -/
def get (t : Transform) (x : Axis) : Float := t.axes.get x.index

/-- Moves one axis. -/
def set (t : Transform) (x : Axis) (v : Float) : Transform := ⟨t.axes.set x.index v x.index_lt⟩

/-- Whether every axis equals zero, of either sign. -/
def isRest (t : Transform) : Bool := t.axes.all (· == 0)

/-- Writes the axes of a set. -/
def write (t : Transform) (s : AxisSet) : Transform :=
  s.toList.foldl (fun t (x, u) => t.set x u.value) t

end Transform

/-- The places of all bones. -/
structure Posture where
  /-- The pose it came from. -/
  name : String
  /-- The place of each bone, in the order of the bones. -/
  bones : Vector Transform 31
deriving DecidableEq, Repr

namespace Posture

/-- Every bone at rest. -/
def rest (name : String) : Posture := ⟨name, .replicate 31 .rest⟩

/-- The place of a bone. -/
def bone (p : Posture) (b : Bone) : Transform := p.bones.get b.index

/-- Puts one bone somewhere. -/
def setBone (p : Posture) (b : Bone) (t : Transform) : Posture :=
  { p with bones := p.bones.set b.index t }

/-- The bones that are not at rest, in order. -/
def posed (p : Posture) : List Bone := Bone.all.filter fun b => !(p.bone b).isRest

/-- Applies one statement. -/
def apply (p : Posture) (s : CheckedStatement) : Posture :=
  match s.change with
  | .reset => p.setBone s.bone .rest
  | .write axes => p.setBone s.bone ((p.bone s.bone).write axes)

end Posture

/-- The posture of a pose. -/
def CheckedPose.posture (p : CheckedPose) : Posture :=
  p.statements.foldl Posture.apply (.rest p.name)

/-- The posture of every pose of a document. -/
def Checked.postures (d : Checked) : List (String × Posture) :=
  d.poses.map fun (key, p) => (key, p.posture)

end PoseLang
