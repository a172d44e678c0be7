/-!
# Sample documents

Small documents with what compiling them gives: how many records and warnings, or the category
of the error.
-/

namespace PoseLang

/-- A sample document. -/
structure Sample where
  name : String
  /-- The file it is kept in. -/
  file : String
  /-- The lines of the source. -/
  lines : List String
  /-- Bone records of the motion. -/
  records : Option Nat := none
  warnings : Option Nat := none
  /-- The category of the error, for a document that has no motion. -/
  category : Option String := none

namespace Sample

/-- The source text; every line ends with a line feed. -/
def source (s : Sample) : String := String.join (s.lines.map (· ++ "\n"))

/-- A bow and then a wave; the keyframes of the bow are out of order. -/
def bowAndWave : Sample where
  name := "bow-and-wave"
  file := "bow_and_wave.mpl"
  lines := [
    "// Greeting: a short bow, then a wave with the right hand.",
    "",
    "@pose stand \x7b \x7d",
    "",
    "@pose bow \x7b",
    "    upper_body bend forward 45;",
    "    head bend forward 20;",
    "    center move down 1.5;",
    "\x7d",
    "",
    "@pose hand_up \x7b",
    "    arm_r bend backward 60, sway left 10;",
    "    elbow_r bend forward 90;",
    "\x7d",
    "",
    "@pose hand_out \x7b",
    "    arm_r bend backward 60, sway left 10;",
    "    elbow_r bend forward 90;",
    "    wrist_r sway right 20;",
    "\x7d",
    "",
    "# Keyframes are listed out of order on purpose.",
    "@animation bow \x7b",
    "    1.6: stand;",
    "    0: stand;",
    "    0.5: bow;",
    "    1.2: bow;",
    "\x7d",
    "",
    "@animation wave \x7b",
    "    0: hand_up;",
    "    0.25: hand_out;",
    "    0.5: hand_up;",
    "    0.75: hand_out;",
    "    1: stand;",
    "\x7d",
    "",
    "main \x7b",
    "    bow;",
    "    wave;",
    "\x7d"]
  records := some 54
  warnings := some 0

/-- Two keyframes at one time. -/
def duplicateTime : Sample where
  name := "duplicate-timestamp"
  file := "duplicate_timestamp.mpl"
  lines := [
    "@pose a \x7b head turn left 10; \x7d",
    "@pose b \x7b head turn right 10; \x7d",
    "",
    "@animation look \x7b",
    "    0: a;",
    "    1: b;",
    "    1.0: a;",
    "\x7d",
    "",
    "main \x7b look; \x7d"]
  category := some "timeline"

/-- Two magnitudes beyond their limits. -/
def overreach : Sample where
  name := "overreach"
  file := "overreach.mpl"
  lines := [
    "@pose reach \x7b",
    "    elbow_l bend forward 200;",
    "    neck turn left 120;",
    "    head RESET;",
    "\x7d",
    "",
    "@animation reach_once \x7b",
    "    0: reach;",
    "\x7d",
    "",
    "main \x7b reach_once; \x7d"]
  records := some 2
  warnings := some 2

/-- A keyframe of a pose that does not exist. -/
def unknownPose : Sample where
  name := "unknown-pose"
  file := "unknown_pose.mpl"
  lines := [
    "@animation a \x7b",
    "    0: x;",
    "\x7d",
    "",
    "main \x7b a; \x7d"]
  category := some "name"

/-- One arm waves. -/
def wave : Sample where
  name := "wave"
  file := "wave.mpl"
  lines := [
    "@pose wave_start \x7b",
    "    shoulder_r bend backward 30, sway left 20;",
    "    arm_r bend backward 60;",
    "    elbow_r bend forward 90;",
    "    wrist_r sway left 20;",
    "\x7d",
    "",
    "@pose wave_left \x7b",
    "    shoulder_r bend backward 30, sway left 20;",
    "    arm_r bend backward 60;",
    "    elbow_r bend forward 90;",
    "    wrist_r sway left 30;",
    "\x7d",
    "",
    "@pose wave_right \x7b",
    "    shoulder_r bend backward 30, sway left 20;",
    "    arm_r bend backward 60;",
    "    elbow_r bend forward 90;",
    "    wrist_r sway right 10;",
    "\x7d",
    "",
    "@animation wave \x7b",
    "    0: wave_start;",
    "    0.3: wave_left;",
    "    0.6: wave_right;",
    "    0.9: wave_left;",
    "    1.2: wave_right;",
    "    1.5: wave_start;",
    "\x7d",
    "",
    "main \x7b",
    "    wave;",
    "\x7d"]
  records := some 24
  warnings := some 0

/-- The samples, in the order of their names. -/
def all : List Sample := [bowAndWave, duplicateTime, overreach, unknownPose, wave]

/-- The sample of this name. -/
def find? (name : String) : Option Sample := all.find? (·.name = name)

/-- What is said of a name that no sample has. -/
def unknownMessage (name : String) : String := "unknown document fixture '" ++ name ++ "'"

end Sample

end PoseLang
