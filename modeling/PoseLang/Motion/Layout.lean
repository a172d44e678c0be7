import PoseLang.Number.Binary
import PoseLang.Rotation

/-!
# The layout of a motion stream

A motion is stored as bytes, numbers with the lowest byte first:

    signature      30 bytes, padded with zeros
    model name     20 bytes, Shift_JIS, padded with zeros
    record count    4 bytes
    bone records  111 bytes each: name 15, frame 4, shift 3 × 4, rotation 4 × 4,
                  interpolation 64
    sections       morphs, cameras, lights, self-shadows, inverse kinematics: each a count of
                  4 bytes and its records

Sections may be missing from the end.
-/

namespace PoseLang

namespace Layout

/-- What a stream begins with. -/
def signature : List UInt8 := "Vocaloid Motion Data 0002".toList.map fun c => .ofNat c.toNat

/-- Bytes of the signature field. -/
def signatureSize : Nat := 30

/-- Bytes of the model name field. -/
def modelNameSize : Nat := 20

/-- Bytes of the bone name field. -/
def boneNameSize : Nat := 15

/-- Bytes of the interpolation field. -/
def interpolationSize : Nat := 64

/-- Bytes of a morph record. -/
def morphSize : Nat := 15 + 4 + 4

/-- Bytes of a camera record. -/
def cameraSize : Nat := 4 + 4 + 3 * 4 + 3 * 4 + 24 + 4 + 1

/-- Bytes of a light record. -/
def lightSize : Nat := 4 + 3 * 4 + 3 * 4

/-- Bytes of a self-shadow record. -/
def selfShadowSize : Nat := 4 + 1 + 4

/-- Bytes of an inverse-kinematics record before its toggles. -/
def ikSize : Nat := 4 + 1

/-- Bytes of an inverse-kinematics toggle. -/
def ikToggleSize : Nat := 20 + 1

/-- Sections after the bone records. -/
def sectionCount : Nat := 5

/-! ### Fields -/

/-- A field of a given size: the bytes, and zeros after them. -/
def padded (size : Nat) (bytes : List UInt8) : List UInt8 :=
  bytes ++ List.replicate (size - bytes.length) 0

/-- The four bytes of a word. -/
def wordBytes (w : UInt32) : List UInt8 :=
  [w.toUInt8, (w >>> 8).toUInt8, (w >>> 16).toUInt8, (w >>> 24).toUInt8]

/-- The word of four bytes. -/
def wordOf (a b c d : UInt8) : UInt32 :=
  a.toUInt32 ||| (b.toUInt32 <<< 8) ||| (c.toUInt32 <<< 16) ||| (d.toUInt32 <<< 24)

@[simp] theorem length_wordBytes (w : UInt32) : (wordBytes w).length = 4 := rfl

/-- The interpolation of straight motion: control points at 20 and 107, in four rows of which
each is the one before, one byte to the left. -/
def linearInterpolation : List UInt8 :=
  let row := List.replicate 8 20 ++ List.replicate 8 107
  (List.range 4).flatMap fun r => row.drop r ++ List.replicate r 0

theorem length_linearInterpolation : linearInterpolation.length = interpolationSize := by decide

end Layout

/-- Three numbers, one for each axis of space. -/
structure Triple (α : Type) where
  x : α
  y : α
  z : α
deriving DecidableEq, Repr

/-- Where a bone is at a frame, as a stream holds it. -/
structure BoneRecord where
  /-- The bone's name in the player. -/
  boneName : String
  frame : UInt32
  shift : Triple Single
  rotation : Quaternion Single
  interpolation : List UInt8
deriving DecidableEq, Repr

/-- A motion as a stream holds it: all bone records, and how many records of other kinds follow. -/
structure Motion where
  modelName : String
  records : List BoneRecord
  morphs : UInt32 := 0
  cameras : UInt32 := 0
  lights : UInt32 := 0
  selfShadows : UInt32 := 0
  iks : UInt32 := 0
deriving DecidableEq, Repr

end PoseLang
