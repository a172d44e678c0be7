import PoseLang.Motion.Frames
import PoseLang.Motion.Layout
import PoseLang.Text.ShiftJis

/-!
# Writing a motion

A bone that is away from rest in some keyframe has a record at every frame, so that a player
brings it back to rest where it belongs; the other bones have none. Records are grouped by
bone. Nothing is written unless everything fits the layout.
-/

namespace PoseLang

/-- A motion that was written. -/
structure EncodedMotion where
  bytes : ByteArray
  /-- The frame of each keyframe. -/
  frames : List Nat
  /-- The bones that have records, in order. -/
  bones : List Bone
  recordCount : Nat

/-- The bytes of a name in a field of a given size. -/
def nameField (field : NameField) (size : Nat) (text : String) :
    Except CompileError (List UInt8) :=
  match ShiftJis.encode? text with
  | none => .error (.overflow (.unmappedName field text))
  | some bytes =>
    if size < bytes.length then .error (.overflow (.longName field text bytes.length size))
    else .ok (Layout.padded size bytes)

/-- The shift of a bone from its place. -/
def Transform.shift (t : Transform) : Triple Float :=
  ⟨t.get .translateX, t.get .translateY, t.get .translateZ⟩

/-- The rotation of a bone. -/
def Transform.rotation (t : Transform) : Quaternion Float :=
  Euler.quaternion ⟨t.get .pitch, t.get .yaw, t.get .roll⟩

/-- The bytes of a float in a stream. -/
def singleBytes (x : Float) : List UInt8 := Layout.wordBytes (Single.ofFloat x).bits

/-- The bytes of one record, given those of its bone's name. -/
def recordBytes (name : List UInt8) (frame : Nat) (t : Transform) : List UInt8 :=
  let p := t.shift
  let q := t.rotation
  [name, Layout.wordBytes (.ofNat frame),
   singleBytes p.x, singleBytes p.y, singleBytes p.z,
   singleBytes q.x, singleBytes q.y, singleBytes q.z, singleBytes q.w,
   Layout.linearInterpolation].flatten

/-- The bones that some keyframe poses, in order. -/
def Timeline.bones (t : Timeline) : List Bone :=
  Bone.all.filter fun b => t.keyframes.any fun k => !(k.pose.bone b).isRest

/-- Writes bytes at the end. -/
def appendBytes (out : ByteArray) (bytes : List UInt8) : ByteArray := bytes.foldl ByteArray.push out

/-- Writes the records of one bone. -/
def appendBone (t : Timeline) (frames : List Nat) (out : ByteArray) (b : Bone) :
    Except CompileError ByteArray := do
  let name ← nameField .bone Layout.boneNameSize b.playerName
  return (t.keyframes.zip frames).foldl
    (fun out (k, frame) => appendBytes out (recordBytes name frame (k.pose.bone b))) out

/-- Writes a timeline as a motion stream. -/
def Timeline.encode (config : Config) (t : Timeline) : Except CompileError EncodedMotion := do
  config.check
  let frames ← t.frames config.frameRate
  let bones := t.bones
  let recordCount := bones.length * frames.length
  if config.limits.outputRecords < recordCount then
    throw (.tooLarge (.records bones.length frames.length) config.limits.outputRecords)
  if UInt32.size ≤ recordCount then
    throw (.overflow (.recordCount recordCount))
  let modelName ← nameField .model Layout.modelNameSize config.modelName
  let header := Layout.padded Layout.signatureSize Layout.signature ++ modelName
    ++ Layout.wordBytes (.ofNat recordCount)
  let body ← bones.foldlM (appendBone t frames) (appendBytes .empty header)
  let trailer := (List.replicate Layout.sectionCount (Layout.wordBytes 0)).flatten
  return ⟨appendBytes body trailer, frames, bones, recordCount⟩

end PoseLang
