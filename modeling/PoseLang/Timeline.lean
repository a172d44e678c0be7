import PoseLang.Config
import PoseLang.Posture

/-!
# Timelines

An animation is put in the order of its times, which have to differ, and its poses are looked
up: that is its `Track`. The tracks that `main` plays are then laid end to end on one
`Timeline`: each begins where the last keyframe of the one before stands.
-/

namespace PoseLang

/-- A posture at a time. -/
structure TimedPose where
  time : Float
  pose : Posture
deriving DecidableEq, Repr

/-- The keyframes of one animation, in order of time. -/
structure Track where
  name : String
  keyframes : List TimedPose
deriving DecidableEq, Repr

/-- The time of the last keyframe, or 0 if there is none. -/
def Track.duration (t : Track) : Float :=
  (t.keyframes.getLast?.map (·.time)).getD 0

/-- A keyframe of what is played. -/
structure PlayedKeyframe where
  /-- Seconds from the very start. -/
  time : Float
  animation : String
  pose : Posture
deriving DecidableEq, Repr

/-- Everything that is played, in order. -/
structure Timeline where
  keyframes : List PlayedKeyframe
deriving DecidableEq, Repr

/-- The time of the last keyframe, or 0 if there is none. -/
def Timeline.duration (t : Timeline) : Float :=
  (t.keyframes.getLast?.map (·.time)).getD 0

/-! ### One animation -/

/-- The keyframes in order of time; those at one time stay in the order of the text. -/
def sortKeyframes (ks : List Keyframe) : List Keyframe :=
  ks.mergeSort fun a b => orderKey a.time ≤ orderKey b.time

/-- The first keyframe that has the time of the one before it. -/
def repeated? : List Keyframe → Option Keyframe
  | a :: b :: ks => if a.time == b.time then some b else repeated? (b :: ks)
  | _ => none

/-- Looks up the pose of a keyframe. -/
def Keyframe.resolve (poses : List (String × Posture)) (k : Keyframe) :
    Except CompileError TimedPose :=
  match poses.lookup k.pose with
  | some pose => .ok ⟨k.time, pose⟩
  | none => .error (.unknownName .pose k.pose k.span.location)

/-- The track of an animation. -/
def Animation.track (poses : List (String × Posture)) (a : Animation) :
    Except CompileError Track :=
  let sorted := sortKeyframes a.keyframes
  match repeated? sorted with
  | some k => .error (.duplicateTime a.name k.time k.span.location)
  | none => do
    let keyframes ← sorted.mapM (Keyframe.resolve poses)
    return ⟨a.name, keyframes⟩

/-! ### What is played -/

/-- The keyframes of an animation that begins at a time. -/
def Track.playedFrom (t : Track) (start : Float) : List PlayedKeyframe :=
  t.keyframes.map fun k => ⟨start + k.time, t.name, k.pose⟩

/-- Plays entries one after the other, after what was played already. -/
def play (limits : InputLimits) (tracks : List Track) :
    Array PlayedKeyframe → Float → List PlayEntry → Except CompileError Timeline
  | done, _, [] => .ok ⟨done.toList⟩
  | done, start, e :: es =>
    match tracks.find? (·.name = e.animation) with
    | none => .error (.unknownName .animation e.animation e.span.location)
    | some t =>
      if limits.timelineKeyframes < done.size + t.keyframes.length then
        .error (.tooLarge .timelineKeyframes limits.timelineKeyframes)
      else
        play limits tracks (done ++ t.playedFrom start) (start + t.duration) es

/-- The timeline of a play sequence. Every animation is put in order, played or not; of two with
one name the later counts. -/
def assemble (limits : InputLimits) (poses : List (String × Posture))
    (animations : List (String × Animation)) (main : List PlayEntry) :
    Except CompileError Timeline := do
  let tracks ← animations.mapM fun (_, a) => a.track poses
  play limits tracks.reverse #[] 0 main

/-- The timeline of a document. -/
def Checked.timeline (limits : InputLimits) (d : Checked) : Except CompileError Timeline :=
  assemble limits d.postures d.animations d.main

end PoseLang
