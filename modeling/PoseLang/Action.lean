import PoseLang.Axis

/-!
# Actions and directions

The words of a clause: an action and a direction. Only some pairs are motions; `Action.axis?`
says which axis a pair drives and with which sign. Words are read without regard to the case
of ASCII letters.
-/

namespace PoseLang

/-- Whether two words differ at most in the case of ASCII letters. -/
def sameWord (a b : String) : Bool :=
  a.toList.map Char.toLower = b.toList.map Char.toLower

/-- What a bone does. -/
inductive Action where
  | bend
  | turn
  | sway
  | move
deriving DecidableEq, Repr, Inhabited

/-- Which way a bone goes. -/
inductive Direction where
  | forward
  | backward
  | left
  | right
  | up
  | down
deriving DecidableEq, Repr, Inhabited

namespace Direction

/-- The directions in order. -/
def all : List Direction := [forward, backward, left, right, up, down]

/-- The word for a direction. -/
def word : Direction → String
  | forward => "forward"
  | backward => "backward"
  | left => "left"
  | right => "right"
  | up => "up"
  | down => "down"

/-- The direction that a word names, in any case. -/
def ofWord? (w : String) : Option Direction := all.find? fun d => sameWord d.word w

end Direction

namespace Action

/-- The actions in order. -/
def all : List Action := [bend, turn, sway, move]

/-- The word for an action. -/
def word : Action → String
  | bend => "bend"
  | turn => "turn"
  | sway => "sway"
  | move => "move"

/-- The action that a word names, in any case. -/
def ofWord? (w : String) : Option Action := all.find? fun a => sameWord a.word w

/-- The directions an action may have, as a message lists them. -/
def directionsText : Action → String
  | bend => "'forward' or 'backward'"
  | turn | sway => "'left' or 'right'"
  | move => "'forward', 'backward', 'left', 'right', 'up' or 'down'"

/-- The axis that an action in a direction drives, and its sign there. The model faces `-Z`, so
going backward is positive on Z. -/
def axis? : Action → Direction → Option (Axis × Sign)
  | bend, .forward => some (.pitch, .positive)
  | bend, .backward => some (.pitch, .negative)
  | turn, .left => some (.yaw, .positive)
  | turn, .right => some (.yaw, .negative)
  | sway, .right => some (.roll, .positive)
  | sway, .left => some (.roll, .negative)
  | move, .left => some (.translateX, .positive)
  | move, .right => some (.translateX, .negative)
  | move, .up => some (.translateY, .positive)
  | move, .down => some (.translateY, .negative)
  | move, .backward => some (.translateZ, .positive)
  | move, .forward => some (.translateZ, .negative)
  | _, _ => none

end Action

end PoseLang
