import PoseLang.AxisSet
import PoseLang.Bone.Limits
import PoseLang.Error

/-!
# Checked documents

A document whose motions the bones permit. Every clause of every pose is checked, whether or
not something plays the pose: a motion without a limit and an axis that a statement drives
twice are errors, and a magnitude above its limit becomes the limit, with a warning.
-/

namespace PoseLang

/-- What a checked statement does with its bone. -/
inductive Change where
  /-- Writes some axes. -/
  | write (axes : AxisSet)
  /-- Back to rest. -/
  | reset
deriving DecidableEq, Repr

/-- A statement with signs and limits applied. -/
structure CheckedStatement where
  bone : Bone
  change : Change
deriving DecidableEq, Repr

/-- A pose of checked statements, in order. -/
structure CheckedPose where
  name : String
  statements : List CheckedStatement
deriving DecidableEq, Repr

/-- A checked document. -/
structure Checked where
  poses : List (String × CheckedPose)
  animations : List (String × Animation)
  main : List PlayEntry
  /-- The magnitudes that were cut down, in the order of the document. -/
  warnings : List Warning
deriving DecidableEq, Repr

/-- Takes one more clause into the axes and warnings of its statement. -/
def Clause.check (pose : String) (bone : Bone) (acc : AxisSet × List Warning) (c : Clause) :
    Except CompileError (AxisSet × List Warning) :=
  match bone.limit? c.action c.direction, c.action.axis? c.direction with
  | some limit, some (axis, sign) =>
    if limit < c.magnitude then
      match acc.1.insert? axis ⟨sign, limit⟩ with
      | some axes =>
        .ok (axes, acc.2
          ++ [⟨pose, bone, c.action, c.direction, c.magnitude, limit, c.span.location⟩])
      | none => .error (.conflict bone axis c.span.location)
    else
      match acc.1.insert? axis ⟨sign, c.magnitude⟩ with
      | some axes => .ok (axes, acc.2)
      | none => .error (.conflict bone axis c.span.location)
  | some _, none =>
    -- The table of limits has motions only, so no document gets here.
    .error (.unexpected (.motion c.action c.direction) (some (.ident c.direction.word))
      c.span.location)
  | none, _ => .error (.unsupported bone c.action c.direction c.span.location)

/-- Checks a statement; gives also its warnings. -/
def Statement.check (pose : String) (s : Statement) :
    Except CompileError (CheckedStatement × List Warning) :=
  match s.deed with
  | .reset => .ok (⟨s.bone, .reset⟩, [])
  | .actions clauses => do
    let (axes, warnings) ← clauses.foldlM (Clause.check pose s.bone) (.empty, [])
    return (⟨s.bone, .write axes⟩, warnings)

/-- Checks a pose, which goes by its key from here on; gives also its warnings. -/
def Pose.check (key : String) (p : Pose) : Except CompileError (CheckedPose × List Warning) := do
  let checked ← p.statements.mapM (Statement.check key)
  return (⟨key, checked.map (·.1)⟩, checked.flatMap (·.2))

/-- Checks a document. -/
def Document.check (d : Document) : Except CompileError Checked := do
  let checked ← d.poses.mapM fun (key, p) => do
    let (pose, warnings) ← p.check key
    return ((key, pose), warnings)
  return ⟨checked.map (·.1), d.animations, d.main, checked.flatMap (·.2)⟩

end PoseLang
