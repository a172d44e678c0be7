import PoseLang.Config

/-!
# From tokens to a document

The grammar is

    document  := block*
    block     := '@pose' NAME '{' statement* '}'
               | '@animation' NAME '{' keyframe* '}'
               | 'main' '{' (NAME ';')* '}'
    statement := BONE ('reset' | clause (',' clause)*) ';'
    clause    := ACTION DIRECTION NUMBER
    keyframe  := NUMBER ':' NAME ';'

No block contains another, so one token at a time suffices to read a document: a `Reader` holds
the finished `Blocks` and the `Stage` of the open one, and `Reader.step` takes it past a token.
A step that fails either leaves its token unread (`Step.refuse`) or has read it
(`Step.reject`); what is left of the tokens is part of the answer, so that reading can go on
behind an error.
-/

namespace PoseLang

/-- The beginning of a pose: its statements so far. -/
structure PoseDraft where
  span : Span
  name : String
  done : Array Statement := #[]
deriving DecidableEq, Repr

/-- The beginning of a statement: its clauses so far. -/
structure StatementDraft where
  bone : Bone
  span : Span
  done : Array Clause := #[]
deriving DecidableEq, Repr

/-- The beginning of an animation: its keyframes so far. -/
structure AnimationDraft where
  span : Span
  name : String
  done : Array Keyframe := #[]
deriving DecidableEq, Repr

/-- The whole pose. -/
def PoseDraft.finish (d : PoseDraft) : Pose := ⟨d.name, d.done.toList, d.span⟩

/-- The pose with one more statement. -/
def PoseDraft.add (d : PoseDraft) (s : Statement) : PoseDraft := { d with done := d.done.push s }

/-- The whole statement. -/
def StatementDraft.finish (d : StatementDraft) : Statement :=
  ⟨d.bone, .actions d.done.toList, d.span⟩

/-- The statement that puts the bone back to rest. -/
def StatementDraft.reset (d : StatementDraft) : Statement := ⟨d.bone, .reset, d.span⟩

/-- The statement with one more clause. -/
def StatementDraft.add (d : StatementDraft) (c : Clause) : StatementDraft :=
  { d with done := d.done.push c }

/-- The whole animation. -/
def AnimationDraft.finish (d : AnimationDraft) : Animation := ⟨d.name, d.done.toList, d.span⟩

/-- The animation with one more keyframe. -/
def AnimationDraft.add (d : AnimationDraft) (k : Keyframe) : AnimationDraft :=
  { d with done := d.done.push k }

/-- How far a block has been read. -/
inductive Stage where
  /-- After `@pose`. -/
  | poseName (keyword : Span)
  /-- Before the opening brace of a pose. -/
  | poseOpen (keyword : Span) (name : String)
  /-- Inside a pose, between statements. -/
  | poseBody (pose : PoseDraft)
  /-- Before an action; before the first one also `reset` may stand. -/
  | action (pose : PoseDraft) (statement : StatementDraft)
  | direction (pose : PoseDraft) (statement : StatementDraft) (action : Action) (word : Span)
  | amount (pose : PoseDraft) (statement : StatementDraft) (action : Action)
      (direction : Direction) (word : Span)
  /-- After a clause: a comma or a semicolon. -/
  | clauseEnd (pose : PoseDraft) (statement : StatementDraft)
  /-- After `reset`. -/
  | resetEnd (pose : PoseDraft) (statement : StatementDraft)
  /-- After `@animation`. -/
  | animationName (keyword : Span)
  /-- Before the opening brace of an animation. -/
  | animationOpen (keyword : Span) (name : String)
  /-- Inside an animation, between keyframes. -/
  | animationBody (animation : AnimationDraft)
  /-- After a time. -/
  | colon (animation : AnimationDraft) (time : Float) (number : Span)
  | keyframePose (animation : AnimationDraft) (time : Float) (number : Span)
  | keyframeEnd (animation : AnimationDraft) (keyframe : Keyframe)
  /-- After `main`. -/
  | mainOpen
  /-- Inside `main`, between entries. -/
  | mainBody (done : Array PlayEntry)
  | entryEnd (done : Array PlayEntry) (entry : PlayEntry)
deriving DecidableEq, Repr

namespace Stage

/-- What a stage asks for. -/
def expected : Stage → Expectation
  | poseName _ => .poseName
  | poseOpen _ name => .openPose name
  | poseBody _ => .boneName
  | action _ statement =>
    if statement.done.isEmpty then .firstAction statement.bone else .nextAction
  | direction _ _ a _ => .direction a
  | amount _ _ a d _ => .amount a d
  | clauseEnd _ _ | resetEnd _ _ => .statementEnd
  | animationName _ => .animationName
  | animationOpen _ name => .openAnimation name
  | animationBody _ => .keyframeTime
  | colon _ _ _ => .colon
  | keyframePose _ _ _ => .keyframePose
  | keyframeEnd _ _ => .keyframeEnd
  | mainOpen => .openMain
  | mainBody _ => .entry
  | entryEnd _ _ => .entryEnd

/-- What a stage misses at the end of the input: between two items, the closing brace. -/
def missing : Stage → Expectation
  | poseBody pose => .closePose pose.name
  | animationBody animation => .closeAnimation animation.name
  | mainBody _ => .closeMain
  | s => s.expected

end Stage

/-- The blocks that were read. -/
structure Blocks where
  poses : Array (String × Pose) := #[]
  animations : Array (String × Animation) := #[]
  /-- The entries of the `main` block, once it was read. -/
  main : Option (List PlayEntry) := none
deriving DecidableEq, Repr

/-- The document with these blocks. -/
def Blocks.finish (b : Blocks) : Document :=
  ⟨b.poses.toList, b.animations.toList, b.main.getD []⟩

/-- A document that is being read. -/
structure Reader where
  blocks : Blocks := {}
  /-- The open block. -/
  stage : Option Stage := none
deriving DecidableEq, Repr

/-- What one token does to a reader. -/
inductive Step where
  /-- The token was read. -/
  | next (reader : Reader)
  /-- The token does not fit, and is not read. -/
  | refuse (error : CompileError)
  /-- The token was read, and what it completes is an error. -/
  | reject (error : CompileError)
deriving DecidableEq, Repr

namespace Blocks

/-- Goes on inside a block. -/
def goto (b : Blocks) (s : Stage) : Step := .next ⟨b, some s⟩

/-- Takes in a finished pose. -/
def addPose (limits : InputLimits) (b : Blocks) (pose : Pose) : Step :=
  if limits.poses ≤ b.poses.size then .reject (.tooLarge .poses limits.poses)
  else if b.poses.any (·.1 = pose.name) then
    .reject (.duplicateName .pose pose.name pose.span.location)
  else .next ⟨{ b with poses := b.poses.push (pose.name, pose) }, none⟩

/-- Takes in a finished animation. -/
def addAnimation (limits : InputLimits) (b : Blocks) (animation : Animation) : Step :=
  if limits.animations ≤ b.animations.size then
    .reject (.tooLarge .animations limits.animations)
  else if b.animations.any (·.1 = animation.name) then
    .reject (.duplicateName .animation animation.name animation.span.location)
  else .next ⟨{ b with animations := b.animations.push (animation.name, animation) }, none⟩

/-- Takes in the finished `main` block. -/
def addMain (b : Blocks) (entries : List PlayEntry) : Step :=
  .next ⟨{ b with main := some entries }, none⟩

/-- Takes a finished keyframe into its animation. -/
def addKeyframe (limits : InputLimits) (b : Blocks) (d : AnimationDraft) (k : Keyframe) : Step :=
  if limits.keyframesPerAnimation ≤ d.done.size then
    .reject (.tooLarge (.keyframes d.name) limits.keyframesPerAnimation)
  else b.goto (.animationBody (d.add k))

/-- Takes a finished entry into the `main` block. -/
def addEntry (limits : InputLimits) (b : Blocks) (done : Array PlayEntry) (e : PlayEntry) : Step :=
  if limits.playEntries ≤ done.size then .reject (.tooLarge .playEntries limits.playEntries)
  else b.goto (.mainBody (done.push e))

/-- A token between blocks. -/
def openBlock (b : Blocks) (t : Token) : Step :=
  match t.kind with
  | .keyword word =>
    if word = "pose" then b.goto (.poseName t.span)
    else if word = "animation" then b.goto (.animationName t.span)
    else .refuse (.unknownBlock t.kind t.span.location)
  | .ident name =>
    if name = "main" then
      if b.main.isSome then .refuse (.duplicateName .mainBlock name t.span.location)
      else b.goto .mainOpen
    else .refuse (.unknownBlock t.kind t.span.location)
  | _ => .refuse (.unknownBlock t.kind t.span.location)

/-- A token inside a block. -/
def continueBlock (limits : InputLimits) (b : Blocks) (s : Stage) (t : Token) : Step :=
  let unexpected := CompileError.unexpected s.expected (some t.kind) t.span.location
  match s, t.kind with
  | .poseName keyword, .ident name => b.goto (.poseOpen keyword name)
  | .poseOpen keyword name, .openBrace => b.goto (.poseBody ⟨keyword, name, #[]⟩)
  | .poseBody pose, .closeBrace => b.addPose limits pose.finish
  | .poseBody pose, .ident name =>
    match Bone.ofName? name with
    | some bone => b.goto (.action pose ⟨bone, t.span, #[]⟩)
    | none => .reject (.unknownName .bone name t.span.location)
  | .action pose statement, .ident word =>
    if statement.done.isEmpty && sameWord "reset" word then b.goto (.resetEnd pose statement)
    else
      match Action.ofWord? word with
      | some action => b.goto (.direction pose statement action t.span)
      | none => .reject unexpected
  | .direction pose statement action span, .ident word =>
    match (Direction.ofWord? word).filter fun d => (action.axis? d).isSome with
    | some direction => b.goto (.amount pose statement action direction span)
    | none => .reject unexpected
  | .amount pose statement action direction span, .number value =>
    b.goto (.clauseEnd pose (statement.add ⟨action, direction, value, span⟩))
  | .clauseEnd pose statement, .comma => b.goto (.action pose statement)
  | .clauseEnd pose statement, .semicolon => b.goto (.poseBody (pose.add statement.finish))
  | .resetEnd pose statement, .semicolon => b.goto (.poseBody (pose.add statement.reset))
  | .animationName keyword, .ident name => b.goto (.animationOpen keyword name)
  | .animationOpen keyword name, .openBrace => b.goto (.animationBody ⟨keyword, name, #[]⟩)
  | .animationBody animation, .closeBrace => b.addAnimation limits animation.finish
  | .animationBody animation, .number time => b.goto (.colon animation time t.span)
  | .colon animation time span, .colon => b.goto (.keyframePose animation time span)
  | .keyframePose animation time span, .ident pose =>
    b.goto (.keyframeEnd animation ⟨time, pose, span⟩)
  | .keyframeEnd animation keyframe, .semicolon => b.addKeyframe limits animation keyframe
  | .mainOpen, .openBrace => b.goto (.mainBody #[])
  | .mainBody done, .closeBrace => b.addMain done.toList
  | .mainBody done, .ident name => b.goto (.entryEnd done ⟨name, t.span⟩)
  | .entryEnd done entry, .semicolon => b.addEntry limits done entry
  | _, _ => .refuse unexpected

end Blocks

namespace Reader

/-- Takes the reader past one token. -/
def step (limits : InputLimits) : Reader → Token → Step
  | ⟨blocks, none⟩, t => blocks.openBlock t
  | ⟨blocks, some s⟩, t => blocks.continueBlock limits s t

/-- The document, if no block is open at the end of the input. -/
def finish (stop : Position) : Reader → Except CompileError Document
  | ⟨blocks, none⟩ => .ok blocks.finish
  | ⟨_, some s⟩ => .error (.unexpected s.missing none stop.location)

/-- Reads tokens until the end of the input or an error; gives the answer and the tokens that
are left. -/
def run (limits : InputLimits) (stop : Position) :
    Reader → List Token → Except CompileError Document × List Token
  | r, [] => (r.finish stop, [])
  | r, t :: ts =>
    match r.step limits t with
    | .next r => run limits stop r ts
    | .refuse e => (.error e, t :: ts)
    | .reject e => (.error e, ts)

end Reader

/-- Reads one document from the front of some tokens; gives also the tokens that are left. -/
def Tokens.readDocument (limits : InputLimits) (ts : Tokens) :
    Except CompileError Document × Tokens :=
  let (answer, rest) := Reader.run limits ts.stop {} ts.list
  (answer, { ts with list := rest })

/-- The tokens of a source text. -/
def tokenize (source : String) : Except CompileError Tokens :=
  match lex source with
  | .ok ts => .ok ts
  | .error e => .error (.lexical e.fault e.location)

/-- The document that a source text says. -/
def parse (limits : InputLimits) (source : String) : Except CompileError Document :=
  if limits.sourceBytes < source.utf8ByteSize then
    .error (.tooLarge .sourceBytes limits.sourceBytes)
  else
    match tokenize source with
    | .ok ts => (ts.readDocument limits).1
    | .error e => .error e

end PoseLang
