import PoseLang.Axis

/-!
# Updates of axes

The axes that one statement writes, at most one update each. An axis that was written keeps
its first update: a second one is refused.
-/

namespace PoseLang

/-- A signed magnitude for one axis. -/
structure Update where
  sign : Sign
  magnitude : Float
deriving DecidableEq, Repr, Inhabited

/-- The number that the axis gets. -/
def Update.value (u : Update) : Float := u.sign.apply u.magnitude

/-- A map from axes to updates. -/
structure AxisSet where
  /-- The update of each axis, in the order of the axes. -/
  slots : Vector (Option Update) 6
deriving DecidableEq, Repr

namespace AxisSet

/-- No axis is written. -/
def empty : AxisSet := ⟨.replicate 6 none⟩

/-- The update of an axis. -/
def get? (s : AxisSet) (x : Axis) : Option Update := s.slots.get x.index

/-- Writes an axis, unless it was written before. -/
def insert? (s : AxisSet) (x : Axis) (u : Update) : Option AxisSet :=
  match s.get? x with
  | some _ => none
  | none => some ⟨s.slots.set x.index (some u) x.index_lt⟩

/-- How many axes are written. -/
def size (s : AxisSet) : Nat := s.slots.toList.countP Option.isSome

/-- Whether no axis is written. -/
def isEmpty (s : AxisSet) : Bool := s.size = 0

/-- The axes that are written, in order, each with its update. -/
def toList (s : AxisSet) : List (Axis × Update) :=
  Axis.all.filterMap fun x => (s.get? x).map (x, ·)

end AxisSet

end PoseLang
