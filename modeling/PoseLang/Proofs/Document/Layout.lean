import PoseLang.Document.Reader
import PoseLang.Proofs.Token.Trivia

/-!
# The layout of a text does not matter

Blanks and comments move the tokens of a text and do nothing else. The lexical half of this is in
`PoseLang.Proofs.Token.Trivia`. The other half is about the reader: it carries the places of tokens along, into the
document or into an error, and never looks at them. So reading is compared with reading tokens without places: `bare`
takes the places away from tokens, from documents and errors, and from everything that the reader holds in between.

What is proved:

* one token: a step without places is the step, without its places (`bare_step`);
* so tokens of the same kinds are read alike, up to places (`bareAnswer_readDocument`);
* blanks and comments at the end of a token, or in front of it, change neither the kinds of the tokens nor, places
  apart, the document or the error (`layout_insignificant`).
-/

namespace PoseLang

open Lexical

/-! ### Without places -/

/-- The token without its place. -/
def Token.bare (t : Token) : Token := ⟨t.kind, default⟩

/-- The clause without its place. -/
def Clause.bare (c : Clause) : Clause := { c with span := default }

/-- The deed without the places of its clauses. -/
def Deed.bare : Deed → Deed
  | .actions clauses => .actions (clauses.map Clause.bare)
  | .reset => .reset

/-- The statement without its place and those of its clauses. -/
def Statement.bare (s : Statement) : Statement := ⟨s.bone, s.deed.bare, default⟩

/-- The pose without its place and those of its statements. -/
def Pose.bare (p : Pose) : Pose := ⟨p.name, p.statements.map Statement.bare, default⟩

/-- The keyframe without its place. -/
def Keyframe.bare (k : Keyframe) : Keyframe := { k with span := default }

/-- The animation without its place and those of its keyframes. -/
def Animation.bare (a : Animation) : Animation := ⟨a.name, a.keyframes.map Keyframe.bare, default⟩

/-- The entry without its place. -/
def PlayEntry.bare (e : PlayEntry) : PlayEntry := { e with span := default }

/-- The document without the places of its parts. -/
def Document.bare (D : Document) : Document where
  poses := D.poses.map fun (key, p) => (key, p.bare)
  animations := D.animations.map fun (key, a) => (key, a.bare)
  main := D.main.map PlayEntry.bare

/-- The error without its place. -/
def CompileError.bare : CompileError → CompileError
  | lexical fault _ => lexical fault default
  | unexpected expected found _ => unexpected expected found default
  | unknownBlock found _ => unknownBlock found default
  | unknownName kind name _ => unknownName kind name default
  | unsupported bone action direction _ => unsupported bone action direction default
  | conflict bone axis _ => conflict bone axis default
  | duplicateName kind name _ => duplicateName kind name default
  | duplicateTime animation time _ => duplicateTime animation time default
  | tooLarge what limit => tooLarge what limit
  | overflow cause => overflow cause
  | config fault => config fault

/-- An answer without places. -/
def bareAnswer : Except CompileError Document → Except CompileError Document
  | .ok D => .ok D.bare
  | .error e => .error e.bare

/-! ### What the reader holds -/

/-- The begun pose without places. -/
def PoseDraft.bare (d : PoseDraft) : PoseDraft := ⟨default, d.name, d.done.map Statement.bare⟩

/-- The begun statement without places. -/
def StatementDraft.bare (d : StatementDraft) : StatementDraft := ⟨d.bone, default, d.done.map Clause.bare⟩

/-- The begun animation without places. -/
def AnimationDraft.bare (d : AnimationDraft) : AnimationDraft := ⟨default, d.name, d.done.map Keyframe.bare⟩

/-- The stage without the places of what was read. -/
def Stage.bare : Stage → Stage
  | poseName _ => poseName default
  | poseOpen _ name => poseOpen default name
  | poseBody pose => poseBody pose.bare
  | action pose statement => action pose.bare statement.bare
  | direction pose statement a _ => direction pose.bare statement.bare a default
  | amount pose statement a d _ => amount pose.bare statement.bare a d default
  | clauseEnd pose statement => clauseEnd pose.bare statement.bare
  | resetEnd pose statement => resetEnd pose.bare statement.bare
  | animationName _ => animationName default
  | animationOpen _ name => animationOpen default name
  | animationBody animation => animationBody animation.bare
  | colon animation time _ => colon animation.bare time default
  | keyframePose animation time _ => keyframePose animation.bare time default
  | keyframeEnd animation keyframe => keyframeEnd animation.bare keyframe.bare
  | mainOpen => mainOpen
  | mainBody done => mainBody (done.map PlayEntry.bare)
  | entryEnd done entry => entryEnd (done.map PlayEntry.bare) entry.bare

/-- The finished blocks without places. -/
def Blocks.bare (b : Blocks) : Blocks where
  poses := b.poses.map fun (key, p) => (key, p.bare)
  animations := b.animations.map fun (key, a) => (key, a.bare)
  main := b.main.map (List.map PlayEntry.bare)

/-- The reader without places. -/
def Reader.bare (r : Reader) : Reader := ⟨r.blocks.bare, r.stage.map Stage.bare⟩

/-- The outcome of a step without places. -/
def Step.bare : Step → Step
  | .next r => .next r.bare
  | .refuse e => .refuse e.bare
  | .reject e => .reject e.bare

/-! Drafts are added to and finished the same without places. -/

@[simp] theorem PoseDraft.bare_mk (span : Span) (name : String) :
    (PoseDraft.mk span name #[]).bare = ⟨default, name, #[]⟩ := by
  simp [PoseDraft.bare]

@[simp] theorem PoseDraft.bare_finish (d : PoseDraft) : d.bare.finish = d.finish.bare := by
  simp [PoseDraft.finish, PoseDraft.bare, Pose.bare]

@[simp] theorem PoseDraft.bare_add (d : PoseDraft) (s : Statement) : (d.add s).bare = d.bare.add s.bare := by
  simp [PoseDraft.add, PoseDraft.bare]

@[simp] theorem StatementDraft.bare_mk (bone : Bone) (span : Span) :
    (StatementDraft.mk bone span #[]).bare = ⟨bone, default, #[]⟩ := by
  simp [StatementDraft.bare]

@[simp] theorem StatementDraft.bare_finish (d : StatementDraft) : d.bare.finish = d.finish.bare := by
  simp [StatementDraft.finish, StatementDraft.bare, Statement.bare, Deed.bare]

@[simp] theorem StatementDraft.bare_add (d : StatementDraft) (c : Clause) : (d.add c).bare = d.bare.add c.bare := by
  simp [StatementDraft.add, StatementDraft.bare]

@[simp] theorem AnimationDraft.bare_mk (span : Span) (name : String) :
    (AnimationDraft.mk span name #[]).bare = ⟨default, name, #[]⟩ := by
  simp [AnimationDraft.bare]

@[simp] theorem AnimationDraft.bare_finish (d : AnimationDraft) : d.bare.finish = d.finish.bare := by
  simp [AnimationDraft.finish, AnimationDraft.bare, Animation.bare]

@[simp] theorem AnimationDraft.bare_add (d : AnimationDraft) (k : Keyframe) : (d.add k).bare = d.bare.add k.bare := by
  simp [AnimationDraft.add, AnimationDraft.bare]

theorem Blocks.bare_finish (b : Blocks) : b.finish.bare = b.bare.finish := by
  cases hmain : b.main <;> simp [Blocks.finish, Blocks.bare, Document.bare, hmain]

theorem bare_expected (s : Stage) : s.bare.expected = s.expected := by
  cases s with
  | action => simp [Stage.bare, Stage.expected, StatementDraft.bare]
  | _ => rfl

theorem bare_missing (s : Stage) : s.bare.missing = s.missing := by
  cases s with
  | action pose statement => exact bare_expected (.action pose statement)
  | _ => rfl

theorem bare_start : ({} : Reader).bare = {} := by simp [Reader.bare, Blocks.bare]

/-! ### One token -/

section

variable {limits : InputLimits} {b : Blocks}

theorem bare_unless {p : Prop} [Decidable p] {e : CompileError} {s : Step} :
    (if p then .reject e else s).bare = if p then .reject e.bare else s.bare := by
  split <;> rfl

theorem any_key_bare {α : Type} (f : α → α) (xs : Array (String × α)) (name : String) :
    (xs.map fun (key, a) => (key, f a)).any (·.1 = name) = xs.any (·.1 = name) := by
  rw [Array.any_map]
  rfl

theorem bare_addPose (p : Pose) : (b.addPose limits p).bare = b.bare.addPose limits p.bare := by
  have hsize : b.bare.poses.size = b.poses.size := Array.size_map
  have hany : b.bare.poses.any (·.1 = p.bare.name) = b.poses.any (·.1 = p.name) := any_key_bare Pose.bare _ _
  have hpush : b.bare.poses.push (p.bare.name, p.bare) =
      (b.poses.push (p.name, p)).map fun (key, p) => (key, p.bare) := by
    rw [Array.map_push]
    rfl
  rw [Blocks.addPose, Blocks.addPose, hany, hsize, hpush, bare_unless, bare_unless]
  rfl

theorem bare_addAnimation (a : Animation) : (b.addAnimation limits a).bare = b.bare.addAnimation limits a.bare := by
  have hsize : b.bare.animations.size = b.animations.size := Array.size_map
  have hany : b.bare.animations.any (·.1 = a.bare.name) = b.animations.any (·.1 = a.name) :=
    any_key_bare Animation.bare _ _
  have hpush : b.bare.animations.push (a.bare.name, a.bare) =
      (b.animations.push (a.name, a)).map fun (key, a) => (key, a.bare) := by
    rw [Array.map_push]
    rfl
  rw [Blocks.addAnimation, Blocks.addAnimation, hany, hsize, hpush, bare_unless, bare_unless]
  rfl

theorem bare_addKeyframe (d : AnimationDraft) (k : Keyframe) :
    (b.addKeyframe limits d k).bare = b.bare.addKeyframe limits d.bare k.bare := by
  have hsize : d.bare.done.size = d.done.size := Array.size_map
  rw [Blocks.addKeyframe, Blocks.addKeyframe, hsize, bare_unless, ← AnimationDraft.bare_add]
  rfl

theorem bare_addEntry (done : Array PlayEntry) (e : PlayEntry) :
    (b.addEntry limits done e).bare = b.bare.addEntry limits (done.map PlayEntry.bare) e.bare := by
  rw [Blocks.addEntry, Blocks.addEntry, Array.size_map, bare_unless, ← Array.map_push]
  rfl

theorem bare_openBlock (t : Token) : (b.openBlock t).bare = b.bare.openBlock t.bare := by
  obtain ⟨kind, span⟩ := t
  cases kind with
  | keyword word =>
    simp only [Blocks.openBlock, Token.bare]
    split
    · rfl
    · split <;> rfl
  | ident name =>
    simp only [Blocks.openBlock, Token.bare, Blocks.bare, Option.isSome_map]
    split
    · split <;> rfl
    · rfl
  | _ => rfl

/-- Where an action is due, it matters whether a clause was before. -/
theorem bare_action (pose : PoseDraft) (statement : StatementDraft) (t : Token) :
    (b.continueBlock limits (.action pose statement) t).bare =
      b.bare.continueBlock limits (.action pose.bare statement.bare) t.bare := by
  obtain ⟨kind, span⟩ := t
  have hexpected : Stage.expected (.action pose.bare statement.bare) = _ := bare_expected (.action pose statement)
  have hempty : statement.bare.done.isEmpty = statement.done.isEmpty :=
    Bool.eq_iff_iff.mpr (by simp [StatementDraft.bare])
  cases kind with
  | ident word =>
    simp only [Blocks.continueBlock, Token.bare, hexpected, hempty]
    split
    · rfl
    · split <;> rfl
  | _ =>
    simp only [Blocks.continueBlock, Token.bare, hexpected]
    rfl

theorem bare_continueBlock (s : Stage) (t : Token) :
    (b.continueBlock limits s t).bare = b.bare.continueBlock limits s.bare t.bare := by
  cases s with
  | action pose statement => exact bare_action pose statement t
  | poseBody pose =>
    obtain ⟨kind, span⟩ := t
    cases kind with
    | closeBrace =>
      refine (bare_addPose _).trans ?_
      rw [← PoseDraft.bare_finish]
      rfl
    | ident name =>
      simp only [Blocks.continueBlock, Stage.bare, Token.bare]
      split
      · simp [Step.bare, Reader.bare, Stage.bare, Blocks.goto]
      · rfl
    | _ => rfl
  | direction pose statement a word =>
    obtain ⟨kind, span⟩ := t
    cases kind with
    | ident w =>
      simp only [Blocks.continueBlock, Stage.bare, Token.bare]
      split <;> rfl
    | _ => rfl
  | animationBody animation =>
    obtain ⟨kind, span⟩ := t
    cases kind with
    | closeBrace =>
      refine (bare_addAnimation _).trans ?_
      rw [← AnimationDraft.bare_finish]
      rfl
    | _ => rfl
  | keyframeEnd animation keyframe =>
    obtain ⟨kind, span⟩ := t
    cases kind with
    | semicolon => exact bare_addKeyframe _ _
    | _ => rfl
  | entryEnd done entry =>
    obtain ⟨kind, span⟩ := t
    cases kind with
    | semicolon => exact bare_addEntry _ _
    | _ => rfl
  | poseName | poseOpen | amount | clauseEnd | resetEnd | animationName | animationOpen | colon | keyframePose |
    mainOpen | mainBody =>
    -- these stages ask for certain kinds of tokens, and what they add to a draft they add to the bare draft
    obtain ⟨kind, span⟩ := t
    cases kind <;>
      simp [Blocks.continueBlock, Stage.bare, Token.bare, Step.bare, Reader.bare, Blocks.goto, Blocks.addMain,
        Blocks.bare, CompileError.bare, Stage.expected, Clause.bare] <;> rfl

/-- **One token.** Without places the reader does the same. -/
theorem bare_step (r : Reader) (t : Token) : (r.step limits t).bare = r.bare.step limits t.bare := by
  obtain ⟨b, _ | s⟩ := r
  · exact bare_openBlock t
  · exact bare_continueBlock s t

/-! ### All tokens -/

/-- Reading without places gives the answer without its places. -/
theorem run_bare (r : Reader) (stop : Position) (ts : List Token) :
    (r.bare.run limits default (ts.map Token.bare)).1 = bareAnswer (r.run limits stop ts).1 := by
  induction ts generalizing r with
  | nil =>
    obtain ⟨b, _ | s⟩ := r
    · exact congrArg Except.ok b.bare_finish.symm
    · exact congrArg (fun missing => Except.error (CompileError.unexpected missing none default)) (bare_missing s)
  | cons t ts ih =>
    rw [List.map_cons, Reader.run, Reader.run, ← bare_step]
    cases r.step limits t with
    | next r' => exact ih r'
    | refuse e => rfl
    | reject e => rfl

end

theorem bareAnswer_readDocument {limits : InputLimits} {ts ts' : Tokens}
    (h : ts'.list.map Token.kind = ts.list.map Token.kind) :
    bareAnswer (ts'.readDocument limits).1 = bareAnswer (ts.readDocument limits).1 := by
  have hbare (us : Tokens) : us.list.map Token.bare = (us.list.map Token.kind).map (⟨·, default⟩) := by
    rw [List.map_map]
    rfl
  have hread (us : Tokens) :
      (Reader.run limits default {} (us.list.map Token.bare)).1 = bareAnswer (us.readDocument limits).1 := by
    rw [← bare_start]
    exact run_bare {} us.stop us.list
  rw [← hread, ← hread, hbare, hbare, h]

theorem parse_of_tokenize {limits : InputLimits} {source : String} {ts : Tokens} (h : tokenize source = .ok ts)
    (hsize : source.utf8ByteSize ≤ limits.sourceBytes) : parse limits source = (ts.readDocument limits).1 := by
  rw [parse, if_neg (Nat.not_lt.mpr hsize), h]

/-- **Blanks and comments are insignificant.** Let a text have tokens, and take a place where one of them begins or
ends, or the end of the text. Blanks and comments that are put in there leave the kinds of all tokens as they are. As
far as the size of the text is within the limits, the document is the same up to places, or the error is. -/
theorem layout_insignificant {source : String} {ts : Tokens} (h : tokenize source = .ok ts) :
    (∀ p, IsBoundary ts.list ts.stop.offset p → ∃ before after, source = before ++ after ∧ before.utf8ByteSize = p) ∧
    ∀ before after inserted : String, source = before ++ after →
      IsBoundary ts.list ts.stop.offset before.utf8ByteSize → IsClosedTrivia inserted.toList →
      (∃ ts', tokenize (before ++ inserted ++ after) = .ok ts' ∧ ts'.list.map Token.kind = ts.list.map Token.kind) ∧
      ∀ limits : InputLimits, source.utf8ByteSize ≤ limits.sourceBytes →
        (before ++ inserted ++ after).utf8ByteSize ≤ limits.sourceBytes →
        bareAnswer (parse limits (before ++ inserted ++ after)) = bareAnswer (parse limits source) := by
  obtain ⟨hsplits, hstop⟩ := lex_eq_ok_iff.mp (tokenize_eq_ok.mp h)
  rw [hstop]
  constructor
  · intro p hp
    obtain ⟨front, back, hsource, hoffset, -⟩ := hsplits.insert hp
    refine ⟨String.ofList front, String.ofList back, ?_, hoffset⟩
    rw [← String.ofList_append, ← hsource, String.ofList_toList]
  · rintro before after inserted rfl hp hinserted
    obtain ⟨front, back, hsource, hoffset, hinsert⟩ := hsplits.insert hp
    obtain ⟨rfl, rfl⟩ : before.toList = front ∧ after.toList = back :=
      eq_of_offset_eq (by rw [← String.toList_append, hsource]) (by simpa [placeAfter] using hoffset.symm)
    obtain ⟨tokens', hsplits', hkinds⟩ := hinsert _ hinserted
    have h' : tokenize (before ++ inserted ++ after) =
        .ok ⟨tokens', placeAfter (before ++ inserted ++ after).toList⟩ := by
      refine tokenize_eq_ok.mpr (lex_eq_ok_iff.mpr ⟨?_, rfl⟩)
      rwa [String.toList_append, String.toList_append]
    refine ⟨⟨_, h', hkinds⟩, fun limits hsize hsize' => ?_⟩
    rw [parse_of_tokenize h hsize, parse_of_tokenize h' hsize']
    exact bareAnswer_readDocument hkinds

/-- A text that ends in a comment. -/
def commentedSource : String := "@pose p\x7bneck reset;\x7d//"

/-- A second comment goes on with the first one. -/
theorem layout_commentedSource :
    ∃ ts ts', tokenize commentedSource = .ok ts ∧ IsBoundary ts.list ts.stop.offset commentedSource.utf8ByteSize ∧
      tokenize (commentedSource ++ "\t# more\n") = .ok ts' ∧ ts'.list.map Token.kind = ts.list.map Token.kind ∧
      bareAnswer (parse {} (commentedSource ++ "\t# more\n")) = bareAnswer (parse {} commentedSource) := by
  let ts : Tokens := ⟨[⟨.keyword "pose", ⟨0, 5, 1, 1⟩⟩, ⟨.ident "p", ⟨6, 7, 1, 7⟩⟩, ⟨.openBrace, ⟨7, 8, 1, 8⟩⟩,
    ⟨.ident "neck", ⟨8, 12, 1, 9⟩⟩, ⟨.ident "reset", ⟨13, 18, 1, 14⟩⟩, ⟨.semicolon, ⟨18, 19, 1, 19⟩⟩,
    ⟨.closeBrace, ⟨19, 20, 1, 20⟩⟩], ⟨22, 1, 23⟩⟩
  have hts : tokenize commentedSource = .ok ts := by decide +kernel
  have hp : IsBoundary ts.list ts.stop.offset commentedSource.utf8ByteSize := .inr (by decide +kernel)
  have hinserted : IsClosedTrivia "\t# more\n".toList :=
    .blank (by decide) (@IsClosedTrivia.comment ['#'] " more".toList [] (by simp) (by decide) .nil)
  obtain ⟨⟨ts', hts', hkinds⟩, hparse⟩ := (layout_insignificant hts).2 commentedSource "" _ (by simp) hp hinserted
  have hanswer := hparse {} (by decide +kernel) (by decide +kernel)
  rw [String.append_empty] at hts' hanswer
  exact ⟨ts, ts', hts, hp, hts', hkinds, hanswer⟩

end PoseLang
