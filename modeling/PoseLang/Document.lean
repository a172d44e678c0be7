import PoseLang.Action
import PoseLang.Bone
import PoseLang.Span

/-!
# Documents

What a source text says: poses, animations, and the animations that `main` plays. All lists
keep the order of the text.
-/

namespace PoseLang

/-- One motion with its amount: action, direction, magnitude. -/
structure Clause where
  action : Action
  direction : Direction
  /-- As written, before any limit. -/
  magnitude : Float
  /-- The action's word. -/
  span : Span
deriving DecidableEq, Repr

/-- What a statement does with its bone. -/
inductive Deed where
  /-- Motions, applied together. -/
  | actions (clauses : List Clause)
  /-- Back to rest. -/
  | reset
deriving DecidableEq, Repr

/-- A statement of a pose. -/
structure Statement where
  bone : Bone
  deed : Deed
  /-- The bone's word. -/
  span : Span
deriving DecidableEq, Repr

/-- A named pose. -/
structure Pose where
  name : String
  statements : List Statement
  /-- The keyword that opens the block. -/
  span : Span
deriving DecidableEq, Repr

/-- A pose at a time. -/
structure Keyframe where
  /-- Seconds from the start of the animation. -/
  time : Float
  /-- The name of the pose. -/
  pose : String
  /-- The time's number. -/
  span : Span
deriving DecidableEq, Repr

/-- A named animation. Its keyframes need not be in order of time. -/
structure Animation where
  name : String
  keyframes : List Keyframe
  /-- The keyword that opens the block. -/
  span : Span
deriving DecidableEq, Repr

/-- One animation to play. -/
structure PlayEntry where
  animation : String
  /-- The animation's word. -/
  span : Span
deriving DecidableEq, Repr

/-- A document: its definitions by key, in order, and what it plays. In a document that was read
from a text the key of a definition is its name. -/
structure Document where
  poses : List (String × Pose) := []
  animations : List (String × Animation) := []
  main : List PlayEntry := []
deriving DecidableEq, Repr, Inhabited

end PoseLang
