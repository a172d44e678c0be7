import PoseLang.Timeline

/-!
# Frame numbers

A keyframe falls on the frame nearest to its time. Two keyframes never share a frame: one that
falls on the frame of its predecessor, or before it, comes on the next frame instead.
-/

namespace PoseLang

/-- The largest frame number. -/
def lastFrame : Nat := UInt32.size - 1

/-- The frame nearest to a time, if it has a number. A time before the start falls on frame 0. -/
def nominalFrame? (frameRate time : Float) : Option Nat :=
  match nearestInteger? (time * frameRate) with
  | some n => if n ≤ lastFrame then some n.toNat else none
  | none => none

/-- Gives frames to times, after those that have theirs already; the latest frame first. -/
def planFrom (frameRate : Float) : List Nat → List Float → Except Overflow (List Nat)
  | done, [] => .ok done.reverse
  | done, time :: times =>
    match nominalFrame? frameRate time with
    | none => .error (.lateFrame time frameRate)
    | some frame =>
      match done.head? with
      | none => planFrom frameRate (frame :: done) times
      | some previous =>
        if previous < frame then planFrom frameRate (frame :: done) times
        else if previous < lastFrame then planFrom frameRate ((previous + 1) :: done) times
        else .error .noFrameLeft

/-- The frame of each keyframe of a timeline. -/
def Timeline.frames (frameRate : Float) (t : Timeline) : Except CompileError (List Nat) :=
  match planFrom frameRate [] (t.keyframes.map (·.time)) with
  | .ok frames => .ok frames
  | .error cause => .error (.overflow cause)

end PoseLang
