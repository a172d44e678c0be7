import PoseLang.Document.Reader
import PoseLang.Motion.Encode

/-!
# From a source text to a motion

The whole way in one call: read, check, lay out in time, write. The first error ends it, and
then nothing is written.
-/

namespace PoseLang

/-- The version of what the compiler takes and gives. -/
def interfaceVersion : Nat := 1

/-- The result of compiling a text. -/
structure Compiled where
  /-- The motion stream. -/
  bytes : ByteArray
  /-- The magnitudes that were cut down, in the order of the text. -/
  warnings : List Warning
  /-- Keyframes played, each on a frame of its own. -/
  frameCount : Nat
  /-- Bone records written. -/
  recordCount : Nat
  /-- The time of the last keyframe. -/
  duration : Float

/-- Compiles a source text. The configuration is checked before the text. -/
def compile (config : Config) (source : String) : Except CompileError Compiled := do
  config.check
  let document ← parse config.limits source
  let checked ← document.check
  let timeline ← checked.timeline config.limits
  let encoded ← timeline.encode config
  return {
    bytes := encoded.bytes
    warnings := checked.warnings
    frameCount := encoded.frames.length
    recordCount := encoded.recordCount
    duration := timeline.duration }

end PoseLang
