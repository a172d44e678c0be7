import PoseLang.Error

/-!
# Configuration

How a document is compiled: the frame rate, the model's name in the stream, caps on the size
of the input, and how many results a cache keeps.
-/

namespace PoseLang

/-- Frames per second, if nothing else is asked for. -/
def defaultFrameRate : Float := 30

/-- The most that an input may hold of each kind. -/
structure InputLimits where
  sourceBytes : Nat := 1048576
  poses : Nat := 1024
  animations : Nat := 256
  keyframesPerAnimation : Nat := 4096
  /-- Entries of the `main` block. -/
  playEntries : Nat := 1024
  /-- Keyframes of the whole timeline. -/
  timelineKeyframes : Nat := 65536
  /-- Bone records of the motion. -/
  outputRecords : Nat := 262144
deriving DecidableEq, Repr, Inhabited

/-- All caps, in order. -/
def InputLimits.toList (l : InputLimits) : List Nat :=
  [l.sourceBytes, l.poses, l.animations, l.keyframesPerAnimation, l.playEntries,
   l.timelineKeyframes, l.outputRecords]

/-- The settings of a compiler. -/
structure Config where
  frameRate : Float := defaultFrameRate
  /-- The model name that the motion carries. -/
  modelName : String := ""
  limits : InputLimits := {}
  /-- How many results a cache keeps. -/
  cacheCapacity : Nat := 64
deriving DecidableEq, Repr

/-- Accepts a configuration with a positive, finite frame rate and no cap of zero. -/
def Config.check (c : Config) : Except CompileError Unit :=
  if !c.frameRate.isFinite || c.frameRate ≤ 0 then
    .error (.config (.frameRate c.frameRate))
  else if c.limits.toList.any (· = 0) then
    .error (.config .zeroLimit)
  else
    .ok ()

end PoseLang
