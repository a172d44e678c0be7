import PoseLang.Bone
import PoseLang.Motion.Layout
import PoseLang.Text.ShiftJis

/-!
# Reading a motion

A stream is read from front to back. The bone records are kept; records of other kinds are
counted and skipped. A stream may end before any section after the bone records, and a section
that has begun has to be complete.
-/

namespace PoseLang

/-- A part of a stream. -/
inductive StreamPart where
  | signature
  | modelName
  | boneCount
  | boneName
  | boneFrame
  | boneShift
  | boneRotation
  | boneInterpolation
  | morphCount
  | morphs
  | cameraCount
  | cameras
  | lightCount
  | lights
  | selfShadowCount
  | selfShadows
  | ikCount
  | ik
  | ikToggleCount
  | ikToggles
deriving DecidableEq, Repr

/-- The name of a part in messages. -/
def StreamPart.text : StreamPart → String
  | signature => "signature"
  | modelName => "model name"
  | boneCount => "bone keyframe count"
  | boneName => "bone name"
  | boneFrame => "bone frame"
  | boneShift => "bone translation"
  | boneRotation => "bone rotation"
  | boneInterpolation => "bone interpolation"
  | morphCount => "morph count"
  | morphs => "morph keyframes"
  | cameraCount => "camera count"
  | cameras => "camera keyframes"
  | lightCount => "light count"
  | lights => "light keyframes"
  | selfShadowCount => "self-shadow count"
  | selfShadows => "self-shadow keyframes"
  | ikCount => "ik count"
  | ik => "ik keyframe"
  | ikToggleCount => "ik toggle count"
  | ikToggles => "ik toggles"

/-- Why bytes are no motion stream. -/
inductive DecodeError where
  | badSignature
  /-- The stream ends inside a part that begins at an offset. -/
  | truncated (part : StreamPart) (offset : Nat)
  /-- Bytes follow the last section. -/
  | trailingBytes (count : Nat)
deriving DecidableEq, Repr

/-- The text of an error. -/
def DecodeError.message : DecodeError → String
  | badSignature => "not a VMD stream: unexpected signature"
  | truncated part offset =>
    "stream truncated while reading " ++ part.text ++ " at byte " ++ toString offset
  | trailingBytes count => toString count ++ " trailing bytes after the last section"

/-! ### Parts of a stream -/

/-- What is left of a stream, and how many bytes are behind. -/
structure Cursor where
  offset : Nat
  rest : List UInt8
deriving DecidableEq, Repr

/-- Reads from the front of a stream. -/
abbrev Decoder := StateT Cursor (Except DecodeError)

/-- The list after its first `n` elements, if it has so many. -/
def dropExactly? {α : Type} : Nat → List α → Option (List α)
  | 0, l => some l
  | _ + 1, [] => none
  | n + 1, _ :: l => dropExactly? n l

/-- Skips bytes. -/
def skip (part : StreamPart) (n : Nat) : Decoder Unit := fun c =>
  match dropExactly? n c.rest with
  | some rest => .ok ((), ⟨c.offset + n, rest⟩)
  | none => .error (.truncated part c.offset)

/-- Reads bytes. -/
def takeBytes (part : StreamPart) (n : Nat) : Decoder (List UInt8) := fun c =>
  match dropExactly? n c.rest with
  | some rest => .ok (c.rest.take n, ⟨c.offset + n, rest⟩)
  | none => .error (.truncated part c.offset)

/-- Reads a word. -/
def takeWord (part : StreamPart) : Decoder UInt32 := fun c =>
  match c.rest with
  | b₀ :: b₁ :: b₂ :: b₃ :: rest => .ok (Layout.wordOf b₀ b₁ b₂ b₃, ⟨c.offset + 4, rest⟩)
  | _ => .error (.truncated part c.offset)

/-- Reads a float. -/
def takeSingle (part : StreamPart) : Decoder Single := return ⟨← takeWord part⟩

/-- The name in a field: its text up to the first zero. -/
def fieldName (field : List UInt8) : String := ShiftJis.decode (field.takeWhile (· ≠ 0))

/-- Reads a bone record. -/
def takeRecord : Decoder BoneRecord := do
  let name ← takeBytes .boneName Layout.boneNameSize
  let frame ← takeWord .boneFrame
  let tx ← takeSingle .boneShift
  let ty ← takeSingle .boneShift
  let tz ← takeSingle .boneShift
  let rx ← takeSingle .boneRotation
  let ry ← takeSingle .boneRotation
  let rz ← takeSingle .boneRotation
  let rw ← takeSingle .boneRotation
  let interpolation ← takeBytes .boneInterpolation Layout.interpolationSize
  return ⟨fieldName name, frame, ⟨tx, ty, tz⟩, ⟨rx, ry, rz, rw⟩, interpolation⟩

/-- Reads bone records, after those that were read already; the latest first. -/
def takeRecords : Nat → List BoneRecord → Decoder (List BoneRecord)
  | 0, done => return done.reverse
  | n + 1, done => do
    let record ← takeRecord
    takeRecords n (record :: done)

/-- Skips inverse-kinematics records, each with its toggles. -/
def skipIks : Nat → Decoder Unit
  | 0 => return ()
  | n + 1 => do
    skip .ik Layout.ikSize
    let toggles ← takeWord .ikToggleCount
    skip .ikToggles (toggles.toNat * Layout.ikToggleSize)
    skipIks n

/-- Reads the count of a section and skips its records; a section that is missing has none. -/
def takeSection (part : StreamPart) (skipRecords : Nat → Decoder Unit) : Decoder UInt32 := fun c =>
  if c.rest.isEmpty then .ok (0, c)
  else (do
    let n ← takeWord part
    skipRecords n.toNat
    return n : Decoder UInt32) c

/-- Reads a whole stream. -/
def takeMotion : Decoder Motion := do
  let start ← takeBytes .signature Layout.signatureSize
  unless Layout.signature.isPrefixOf start do
    throw .badSignature
  let modelName ← takeBytes .modelName Layout.modelNameSize
  let count ← takeWord .boneCount
  let records ← takeRecords count.toNat []
  let morphs ← takeSection .morphCount fun n => skip .morphs (n * Layout.morphSize)
  let cameras ← takeSection .cameraCount fun n => skip .cameras (n * Layout.cameraSize)
  let lights ← takeSection .lightCount fun n => skip .lights (n * Layout.lightSize)
  let shadows ← takeSection .selfShadowCount fun n => skip .selfShadows (n * Layout.selfShadowSize)
  let iks ← takeSection .ikCount skipIks
  return ⟨fieldName modelName, records, morphs, cameras, lights, shadows, iks⟩

/-- The motion that a stream holds. -/
def Motion.decode (bytes : ByteArray) : Except DecodeError Motion :=
  match takeMotion ⟨0, bytes.data.toList⟩ with
  | .error e => .error e
  | .ok (motion, c) =>
    if c.rest.isEmpty then .ok motion else .error (.trailingBytes c.rest.length)

/-! ### What a motion says -/

/-- The bone that a record is about, if the language has it. -/
def BoneRecord.bone? (r : BoneRecord) : Option Bone := Bone.ofPlayerName? r.boneName

/-- The angles of a record. -/
def BoneRecord.euler (r : BoneRecord) : Euler :=
  let q : Quaternion Float :=
    ⟨r.rotation.x.toFloat, r.rotation.y.toFloat, r.rotation.z.toFloat, r.rotation.w.toFloat⟩
  q.normalize.euler

/-- The records of one bone, in the order of the stream. -/
def Motion.recordsOf (m : Motion) (b : Bone) : List BoneRecord :=
  m.records.filter (·.boneName = b.playerName)

end PoseLang
