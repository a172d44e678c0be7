import PoseLang.Document
import PoseLang.Token.Lexer

/-!
# What can go wrong

Each error is a cause; its wording is in `CompileError.message` alone. An error that is about
a place in the text carries its location.
-/

namespace PoseLang

/-- What a name stands for. -/
inductive NameKind where
  | bone
  | pose
  | animation
  | mainBlock
deriving DecidableEq, Repr

/-- What the grammar asks for at some place. -/
inductive Expectation where
  | poseName
  | openPose (name : String)
  | boneName
  | closePose (name : String)
  | firstAction (bone : Bone)
  | nextAction
  | direction (action : Action)
  /-- A motion, where the action has not the direction. -/
  | motion (action : Action) (direction : Direction)
  | amount (action : Action) (direction : Direction)
  | statementEnd
  | animationName
  | openAnimation (name : String)
  | keyframeTime
  | closeAnimation (name : String)
  | colon
  | keyframePose
  | keyframeEnd
  | openMain
  | entry
  | entryEnd
  | closeMain
deriving DecidableEq, Repr

/-- What a limit on the input counts. -/
inductive Quantity where
  | sourceBytes
  | poses
  | animations
  | keyframes (animation : String)
  | playEntries
  | timelineKeyframes
  | records (bones frames : Nat)
deriving DecidableEq, Repr

/-- A field of a motion stream that holds a name. -/
inductive NameField where
  | model
  | bone
deriving DecidableEq, Repr

/-- What does not fit a motion stream. -/
inductive Overflow where
  /-- The frame of a time has no number. -/
  | lateFrame (time frameRate : Float)
  /-- Two times fall on the last frame. -/
  | noFrameLeft
  | recordCount (records : Nat)
  | unmappedName (field : NameField) (text : String)
  | longName (field : NameField) (text : String) (bytes size : Nat)
deriving DecidableEq, Repr

/-- What is wrong with a configuration. -/
inductive ConfigFault where
  | frameRate (rate : Float)
  | zeroLimit
  | zeroCapacity
deriving DecidableEq, Repr

/-- Why a text has no motion. -/
inductive CompileError where
  /-- No token can be read. -/
  | lexical (fault : LexFault) (location : Location)
  /-- A token, or the end of the input, where the grammar asks for something else. -/
  | unexpected (expected : Expectation) (found : Option TokenKind) (location : Location)
  /-- A token that opens no block. -/
  | unknownBlock (found : TokenKind) (location : Location)
  | unknownName (kind : NameKind) (name : String) (location : Location)
  | unsupported (bone : Bone) (action : Action) (direction : Direction) (location : Location)
  /-- One statement drives an axis twice. -/
  | conflict (bone : Bone) (axis : Axis) (location : Location)
  | duplicateName (kind : NameKind) (name : String) (location : Location)
  | duplicateTime (animation : String) (time : Float) (location : Location)
  | tooLarge (what : Quantity) (limit : Nat)
  | overflow (cause : Overflow)
  | config (fault : ConfigFault)
deriving DecidableEq, Repr

/-- The word for a kind of name. -/
def NameKind.word : NameKind → String
  | bone => "bone"
  | pose => "pose"
  | animation => "animation"
  | mainBlock => "main block"

/-- The text of an expectation, where something else was found. -/
def Expectation.text (expectation : Expectation) (found : Option TokenKind) : String :=
  let expected (what : String) : String :=
    "expected " ++ what ++ ", found " ++ (found.map TokenKind.describe).getD describeEnd
  match expectation with
  | poseName => expected "pose name after '@pose'"
  | openPose name => expected ("'\x7b' after pose name '" ++ name ++ "'")
  | boneName => expected "bone name"
  | closePose name => expected ("'\x7d' to close pose '" ++ name ++ "'")
  | firstAction bone =>
    expected ("action ('bend', 'turn', 'sway', 'move') or 'reset' after bone '" ++ bone.name ++ "'")
  | nextAction => expected "action ('bend', 'turn', 'sway', 'move') after ','"
  | direction action => expected (action.directionsText ++ " after '" ++ action.word ++ "'")
  | motion action way => "'" ++ action.word ++ " " ++ way.word ++ "' is not a motion"
  | amount action way => expected ("amount after '" ++ action.word ++ " " ++ way.word ++ "'")
  | statementEnd => expected "';' after statement"
  | animationName => expected "animation name after '@animation'"
  | openAnimation name => expected ("'\x7b' after animation name '" ++ name ++ "'")
  | keyframeTime => expected "keyframe time"
  | closeAnimation name => expected ("'\x7d' to close animation '" ++ name ++ "'")
  | colon => expected "':' after keyframe time"
  | keyframePose => expected "pose name after ':'"
  | keyframeEnd => expected "';' after keyframe"
  | openMain => expected "'\x7b' after 'main'"
  | entry => expected "animation name"
  | entryEnd => expected "';' after animation name"
  | closeMain => expected "'\x7d' to close 'main'"

/-- The name of a quantity. -/
def Quantity.text : Quantity → String
  | sourceBytes => "source bytes"
  | poses => "pose count"
  | animations => "animation count"
  | keyframes animation => "keyframe count of animation '" ++ animation ++ "'"
  | playEntries => "main block entries"
  | timelineKeyframes => "global timeline keyframes"
  | records bones frames =>
    "bone records (" ++ toString bones ++ " bones x " ++ toString frames ++ " frames)"

/-- The name of a field. -/
def NameField.text : NameField → String
  | model => "model name"
  | bone => "bone name"

/-- The text of an overflow. -/
def Overflow.text : Overflow → String
  | lateFrame time rate =>
    "time " ++ numberText time ++ "s is beyond the last representable frame at "
      ++ numberText rate ++ " fps"
  | noFrameLeft => "frame numbers exhausted while resolving collisions"
  | recordCount records => toString records ++ " bone records exceed the u32 count field"
  | unmappedName field text =>
    field.text ++ " '" ++ text ++ "' cannot be represented in Shift_JIS"
  | longName field text bytes size =>
    field.text ++ " '" ++ text ++ "' needs " ++ toString bytes ++ " bytes; the field holds "
      ++ toString size

/-- The text of a configuration fault. -/
def ConfigFault.text : ConfigFault → String
  | frameRate rate => "frame rate must be positive and finite, got " ++ numberText rate
  | zeroLimit => "input limits must be greater than 0"
  | zeroCapacity => "cache capacity must be greater than 0"

/-- A place in a message. -/
def Location.text (l : Location) : String :=
  "line " ++ toString l.line ++ ", column " ++ toString l.column

namespace CompileError

/-- The message of a malformed text. -/
def malformed (location : Location) (text : String) : String :=
  "syntax error at " ++ location.text ++ ": " ++ text

/-- The text of an error. -/
def message : CompileError → String
  | lexical fault l => malformed l fault.message
  | unexpected expectation found l => malformed l (expectation.text found)
  | unknownBlock found l =>
    malformed l ("unknown block keyword " ++ found.describe
      ++ "; expected '@pose', '@animation' or 'main'")
  | unknownName kind name l => "unknown " ++ kind.word ++ " '" ++ name ++ "' at " ++ l.text
  | unsupported bone action direction l =>
    "bone '" ++ bone.name ++ "' does not support '" ++ action.word ++ " " ++ direction.word
      ++ "' (" ++ l.text ++ ")"
  | conflict bone axis l =>
    "bone '" ++ bone.name ++ "' sets " ++ axis.name ++ " more than once in one statement ("
      ++ l.text ++ ")"
  | duplicateName kind name l => "duplicate " ++ kind.word ++ " '" ++ name ++ "' at " ++ l.text
  | duplicateTime animation time l =>
    "animation '" ++ animation ++ "' has more than one keyframe at " ++ numberText time ++ "s ("
      ++ l.text ++ ")"
  | tooLarge what limit =>
    "input too large: " ++ what.text ++ " exceeds the limit of " ++ toString limit
  | overflow cause => "encoding overflow: " ++ cause.text
  | config fault => "invalid compiler config: " ++ fault.text

/-- The place that the error is about. -/
def location? : CompileError → Option Location
  | lexical _ l | unexpected _ _ l | unknownBlock _ l | unknownName _ _ l | unsupported _ _ _ l
  | conflict _ _ l | duplicateName _ _ l | duplicateTime _ _ l => some l
  | tooLarge _ _ | overflow _ | config _ => none

/-- The group of the error, for programs that sort messages. -/
def category : CompileError → String
  | lexical _ _ | unexpected _ _ _ | unknownBlock _ _ => "syntax"
  | unknownName _ _ _ | duplicateName _ _ _ => "name"
  | unsupported _ _ _ _ | conflict _ _ _ => "constraint"
  | duplicateTime _ _ _ => "timeline"
  | tooLarge _ _ => "limits"
  | overflow _ => "encoding"
  | config _ => "config"

end CompileError

/-- A magnitude above the limit of its bone, which was cut down to the limit. -/
structure Warning where
  pose : String
  bone : Bone
  action : Action
  direction : Direction
  requested : Float
  limit : Float
  location : Location
deriving DecidableEq, Repr

/-- The text of a warning. -/
def Warning.message (w : Warning) : String :=
  w.location.text ++ ": " ++ w.bone.name ++ " " ++ w.action.word ++ " " ++ w.direction.word ++ " "
    ++ numberText w.requested ++ " in pose '" ++ w.pose ++ "' exceeds the limit of "
    ++ numberText w.limit ++ "; clamped"

end PoseLang
