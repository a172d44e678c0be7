import PoseLang.Proofs.Document.Reader

/-!
# Where a syntax error is found

The reader takes one token at a time, and it refuses a token as soon as no text of the grammar goes on with it. Texts
are blocks, whatever they define (`IsText`): names may repeat here and there is no limit on anything.

The proof says for every stage of the reader which tokens may still come (`Rest`). These are read off the grammar:
`Phrase item more` are the tokens of an item and then what `more` says, and `Items` is its repetition up to a mark. So
each production says what its first token is and what may come behind it (`phrase_isClause`, `phrase_isStatement`,
`phrase_isKeyframe`, `phrase_isEntry`, `phrase_isBlock`).

What is proved:

* one token: either what may come behind it is what may come at the next stage, or nothing may come behind it and the
  error is about this token (`explains_step`);
* at every stage something may come (`exists_rest`), but inside a block not the end (`not_rest_nil`);
* so the tokens before a syntax error begin a text, and with the token at the error they do not
  (`syntaxError_earliest`).
-/

namespace PoseLang

namespace Grammar

/-- Tokens that are blocks, whatever they define. -/
def IsText (ts : List Token) : Prop := ∃ bs, Many IsBlock ts bs

/-- Tokens with which a text begins. -/
def Viable (ts : List Token) : Prop := ∃ us, IsText (ts ++ us)

/-! ### Tokens and then more -/

/-- A token of this kind, and then more. -/
def Mark (kind : TokenKind) (more : List Token → Prop) (ts : List Token) : Prop :=
  ∃ span rest, ts = ⟨kind, span⟩ :: rest ∧ more rest

/-- A word, and then more, which may depend on the word. -/
def Word (more : String → List Token → Prop) (ts : List Token) : Prop :=
  ∃ w span rest, ts = ⟨.ident w, span⟩ :: rest ∧ more w rest

/-- A number, and then more. -/
def Amount (more : List Token → Prop) (ts : List Token) : Prop :=
  ∃ value span rest, ts = ⟨.number value, span⟩ :: rest ∧ more rest

/-- The tokens of an item, and then more. -/
def Phrase {α : Type} (item : List Token → α → Prop) (more : List Token → Prop) (ts : List Token) : Prop :=
  ∃ us a rest, ts = us ++ rest ∧ item us a ∧ more rest

/-- The tokens of items, a mark, and then more. -/
def Items {α : Type} (item : List Token → α → Prop) (mark : TokenKind) (more : List Token → Prop) (ts : List Token) :
    Prop :=
  ∃ us as rest, ts = us ++ rest ∧ Many item us as ∧ Mark mark more rest

section

variable {more : List Token → Prop} {ts : List Token}

@[simp] theorem mark_cons {kind : TokenKind} {t : Token} : Mark kind more (t :: ts) ↔ t.kind = kind ∧ more ts := by
  obtain ⟨kind', span⟩ := t
  simp [Mark]

@[simp] theorem word_cons {more : String → List Token → Prop} {t : Token} :
    Word more (t :: ts) ↔ ∃ w, t.kind = .ident w ∧ more w ts := by
  obtain ⟨kind, span⟩ := t
  simp [Word]

@[simp] theorem amount_cons {t : Token} : Amount more (t :: ts) ↔ (∃ value, t.kind = .number value) ∧ more ts := by
  obtain ⟨kind, span⟩ := t
  simp [Amount]

@[simp] theorem not_mark_nil {kind : TokenKind} : ¬ Mark kind more [] := nofun

@[simp] theorem not_word_nil {more : String → List Token → Prop} : ¬ Word more [] := nofun

@[simp] theorem not_amount_nil : ¬ Amount more [] := nofun

/-- Items are none, up to the mark, or one and then items. -/
theorem items_iff {α : Type} {item : List Token → α → Prop} {mark : TokenKind} :
    Items item mark more ts ↔ Mark mark more ts ∨ Phrase item (Items item mark more) ts := by
  constructor
  · rintro ⟨us, as, rest, rfl, has, hrest⟩
    cases has with
    | nil => exact .inl hrest
    | @cons us vs a as ha has => exact .inr ⟨us, a, vs ++ rest, by simp, ha, vs, as, rest, rfl, has, hrest⟩
  · rintro (hmark | ⟨us, a, _, rfl, ha, vs, as, rest, rfl, has, hrest⟩)
    · exact ⟨[], [], ts, rfl, .nil, hmark⟩
    · exact ⟨us ++ vs, a :: as, rest, by simp, .cons ha has, hrest⟩

/-- A text is empty, or a block and then a text. -/
theorem isText_iff : IsText ts ↔ ts = [] ∨ Phrase IsBlock IsText ts := by
  constructor
  · rintro ⟨bs, hbs⟩
    cases hbs with
    | nil => exact .inl rfl
    | @cons us vs b bs hb hbs => exact .inr ⟨us, b, vs, rfl, hb, bs, hbs⟩
  · rintro (rfl | ⟨us, b, vs, rfl, hb, bs, hbs⟩)
    · exact ⟨[], .nil⟩
    · exact ⟨b :: bs, .cons hb hbs⟩

/-! ### The productions, token by token -/

/-- A direction that the action has, a number, and then more. -/
def DirectionThen (a : Action) (more : List Token → Prop) : List Token → Prop :=
  Word fun w ts => (∃ d : Direction, sameWord d.word w ∧ (a.axis? d).isSome) ∧ Amount more ts

/-- A clause, and then more. -/
theorem phrase_isClause :
    Phrase IsClause more ts ↔ Word (fun w ts => ∃ a : Action, sameWord a.word w ∧ DirectionThen a more ts) ts := by
  constructor
  · rintro ⟨_, _, rest, rfl, hclause, hrest⟩
    cases hclause with
    | @mk a d w w' value s₁ s₂ s₃ ha hd haxis =>
      exact ⟨w, s₁, _, rfl, a, ha, w', s₂, _, rfl, ⟨d, hd, haxis⟩, value, s₃, rest, rfl, hrest⟩
  · rintro ⟨w, s₁, _, rfl, a, ha, w', s₂, _, rfl, ⟨d, hd, haxis⟩, value, s₃, rest, rfl, hrest⟩
    exact ⟨_, _, rest, rfl, .mk ha hd haxis, hrest⟩

theorem phrase_isNextClause : Phrase IsNextClause more ts ↔ Mark .comma (Phrase IsClause more) ts := by
  constructor
  · rintro ⟨_, c, rest, rfl, hnext, hrest⟩
    obtain ⟨hclause⟩ := hnext
    exact ⟨_, _, rfl, _, c, rest, rfl, hclause, hrest⟩
  · rintro ⟨span, _, rfl, us, c, rest, rfl, hclause, hrest⟩
    exact ⟨⟨.comma, span⟩ :: us, c, rest, rfl, .mk hclause, hrest⟩

/-- What may come where an action is due in a statement, and then more; `reset` only where no clause was before. -/
def ActionThen (first : Bool) (more : List Token → Prop) : List Token → Prop :=
  Word fun w ts => (first ∧ sameWord "reset" w ∧ Mark .semicolon more ts) ∨
    ∃ a : Action, sameWord a.word w ∧ DirectionThen a (Items IsNextClause .semicolon more) ts

/-- A statement, and then more. -/
theorem phrase_isStatement :
    Phrase IsStatement more ts ↔ Word (fun w ts => (∃ b : Bone, b.name = w) ∧ ActionThen true more ts) ts := by
  constructor
  · rintro ⟨_, _, rest, rfl, hstatement, hrest⟩
    cases hstatement with
    | @reset b w s₁ s₂ s₃ hw =>
      exact ⟨_, s₁, _, rfl, ⟨b, rfl⟩, w, s₂, _, rfl, .inl ⟨rfl, hw, s₃, rest, rfl, hrest⟩⟩
    | @actions b us vs c cs s₁ s₂ hc hcs =>
      refine ⟨_, s₁, _, rfl, ⟨b, rfl⟩, ?_⟩
      have hclauses : Items IsNextClause .semicolon more (vs ++ ⟨.semicolon, s₂⟩ :: rest) :=
        ⟨vs, cs, _, rfl, hcs, s₂, rest, rfl, hrest⟩
      obtain ⟨w, s, us', hus, haction⟩ := phrase_isClause.mp ⟨us, c, _, rfl, hc, hclauses⟩
      exact ⟨w, s, us', by simpa using hus, .inr haction⟩
  · rintro ⟨_, s₁, _, rfl, ⟨b, rfl⟩, w, s₂, ts, rfl, ⟨-, hw, s₃, rest, rfl, hrest⟩ | haction⟩
    · exact ⟨_, _, rest, rfl, .reset hw, hrest⟩
    · obtain ⟨us, c, _, hus, hc, vs, cs, _, rfl, hcs, s₃, rest, rfl, hrest⟩ :=
        phrase_isClause.mpr ⟨w, s₂, ts, rfl, haction⟩
      rw [hus]
      exact ⟨⟨.ident b.name, s₁⟩ :: (us ++ (vs ++ [⟨.semicolon, s₃⟩])), _, rest, by simp, .actions hc hcs, hrest⟩

theorem phrase_isKeyframe :
    Phrase IsKeyframe more ts ↔ Amount (Mark .colon (Word fun _ => Mark .semicolon more)) ts := by
  constructor
  · rintro ⟨_, _, rest, rfl, ⟨⟩, hrest⟩
    exact ⟨_, _, _, rfl, _, _, rfl, _, _, _, rfl, _, rest, rfl, hrest⟩
  · rintro ⟨_, _, _, rfl, _, _, rfl, _, _, _, rfl, _, rest, rfl, hrest⟩
    exact ⟨_, _, rest, rfl, .mk, hrest⟩

theorem phrase_isEntry : Phrase IsEntry more ts ↔ Word (fun _ => Mark .semicolon more) ts := by
  constructor
  · rintro ⟨_, _, rest, rfl, ⟨⟩, hrest⟩
    exact ⟨_, _, _, rfl, _, rest, rfl, hrest⟩
  · rintro ⟨_, _, _, rfl, _, rest, rfl, hrest⟩
    exact ⟨_, _, rest, rfl, .mk, hrest⟩

/-- A block, and then more. -/
theorem phrase_isBlock : Phrase IsBlock more ts ↔
    Mark (.keyword "pose") (Word fun _ => Mark .openBrace (Items IsStatement .closeBrace more)) ts ∨
    Mark (.keyword "animation") (Word fun _ => Mark .openBrace (Items IsKeyframe .closeBrace more)) ts ∨
    Mark (.ident "main") (Mark .openBrace (Items IsEntry .closeBrace more)) ts := by
  constructor
  · rintro ⟨_, _, rest, rfl, hblock, hrest⟩
    cases hblock with
    | @pose name body statements s₁ s₂ s₃ s₄ hbody =>
      exact .inl ⟨s₁, _, rfl, name, s₂, _, rfl, s₃, _, rfl, body, _, _, by simp, hbody, s₄, rest, rfl, hrest⟩
    | @animation name body keyframes s₁ s₂ s₃ s₄ hbody =>
      exact .inr (.inl ⟨s₁, _, rfl, name, s₂, _, rfl, s₃, _, rfl, body, _, _, by simp, hbody, s₄, rest, rfl, hrest⟩)
    | @main body entries s₁ s₂ s₃ hbody =>
      exact .inr (.inr ⟨s₁, _, rfl, s₂, _, rfl, body, _, _, by simp, hbody, s₃, rest, rfl, hrest⟩)
  · rintro (⟨s₁, _, rfl, name, s₂, _, rfl, s₃, _, rfl, body, _, _, rfl, hbody, s₄, rest, rfl, hrest⟩ |
      ⟨s₁, _, rfl, name, s₂, _, rfl, s₃, _, rfl, body, _, _, rfl, hbody, s₄, rest, rfl, hrest⟩ |
      ⟨s₁, _, rfl, s₂, _, rfl, body, _, _, rfl, hbody, s₃, rest, rfl, hrest⟩)
    · exact ⟨⟨_, s₁⟩ :: ⟨.ident name, s₂⟩ :: ⟨_, s₃⟩ :: (body ++ [⟨_, s₄⟩]), _, rest, by simp, .pose hbody, hrest⟩
    · exact ⟨⟨_, s₁⟩ :: ⟨.ident name, s₂⟩ :: ⟨_, s₃⟩ :: (body ++ [⟨_, s₄⟩]), _, rest, by simp, .animation hbody, hrest⟩
    · exact ⟨⟨_, s₁⟩ :: ⟨_, s₂⟩ :: (body ++ [⟨_, s₃⟩]), _, rest, by simp, .main hbody, hrest⟩

end

end Grammar

open Grammar

/-! ### What may come at a stage -/

/-- The rest of a pose behind its opening brace, or behind a statement. -/
def PoseRest : List Token → Prop := Items IsStatement .closeBrace IsText

/-- The rest of a statement behind a clause. -/
def ClausesRest : List Token → Prop := Items IsNextClause .semicolon PoseRest

/-- The rest of an animation behind its opening brace, or behind a keyframe. -/
def AnimationRest : List Token → Prop := Items IsKeyframe .closeBrace IsText

/-- The rest of `main` behind its opening brace, or behind an entry. -/
def MainRest : List Token → Prop := Items IsEntry .closeBrace IsText

/-- The tokens that may come at a stage, up to the end of a text. -/
def Rest : Option Stage → List Token → Prop
  | none => IsText
  | some (.poseName _) => Word fun _ => Mark .openBrace PoseRest
  | some (.poseOpen _ _) => Mark .openBrace PoseRest
  | some (.poseBody _) => PoseRest
  | some (.action _ statement) => ActionThen statement.done.isEmpty PoseRest
  | some (.direction _ _ a _) => DirectionThen a ClausesRest
  | some (.amount _ _ _ _ _) => Amount ClausesRest
  | some (.clauseEnd _ _) => ClausesRest
  | some (.resetEnd _ _) => Mark .semicolon PoseRest
  | some (.animationName _) => Word fun _ => Mark .openBrace AnimationRest
  | some (.animationOpen _ _) => Mark .openBrace AnimationRest
  | some (.animationBody _) => AnimationRest
  | some (.colon _ _ _) => Mark .colon (Word fun _ => Mark .semicolon AnimationRest)
  | some (.keyframePose _ _ _) => Word fun _ => Mark .semicolon AnimationRest
  | some (.keyframeEnd _ _) => Mark .semicolon AnimationRest
  | some .mainOpen => Mark .openBrace MainRest
  | some (.mainBody _) => MainRest
  | some (.entryEnd _ _) => Mark .semicolon MainRest

section

variable {t : Token} {ts : List Token}

theorem isText_cons : IsText (t :: ts) ↔
    (t.kind = .keyword "pose" ∧ Word (fun _ => Mark .openBrace PoseRest) ts) ∨
    (t.kind = .keyword "animation" ∧ Word (fun _ => Mark .openBrace AnimationRest) ts) ∨
    (t.kind = .ident "main" ∧ Mark .openBrace MainRest ts) := by
  rw [isText_iff, phrase_isBlock]
  simp [PoseRest, AnimationRest, MainRest]

theorem poseRest_cons : PoseRest (t :: ts) ↔
    (t.kind = .closeBrace ∧ IsText ts) ∨ ∃ b : Bone, t.kind = .ident b.name ∧ ActionThen true PoseRest ts := by
  rw [PoseRest, items_iff, phrase_isStatement]
  simp

theorem clausesRest_cons : ClausesRest (t :: ts) ↔
    (t.kind = .semicolon ∧ PoseRest ts) ∨ (t.kind = .comma ∧ ActionThen false PoseRest ts) := by
  rw [ClausesRest, items_iff, phrase_isNextClause]
  simp [phrase_isClause, ActionThen]

theorem animationRest_cons : AnimationRest (t :: ts) ↔
    (t.kind = .closeBrace ∧ IsText ts) ∨
    ((∃ time, t.kind = .number time) ∧ Mark .colon (Word fun _ => Mark .semicolon AnimationRest) ts) := by
  rw [AnimationRest, items_iff, phrase_isKeyframe]
  simp

theorem mainRest_cons : MainRest (t :: ts) ↔
    (t.kind = .closeBrace ∧ IsText ts) ∨ ((∃ name, t.kind = .ident name) ∧ Mark .semicolon MainRest ts) := by
  rw [MainRest, items_iff, phrase_isEntry]
  simp

end

/-! ### One token -/

/-- Behind a clause the statement has a clause. -/
def Stage.HasClause : Option Stage → Prop
  | some (.clauseEnd _ statement) => statement.done.isEmpty = false
  | _ => True

/-- What a step says about the tokens that may come: the next stage has those that may come behind the token; or, if
there is a syntax error, none may come behind the token, and the error is about it. -/
def Step.Explains (s : Option Stage) (t : Token) : Step → Prop
  | .next r => Stage.HasClause r.stage ∧ ∀ us, Rest s (t :: us) ↔ Rest r.stage us
  | .refuse e | .reject e =>
    e.category = "syntax" → e.location? = some t.span.location ∧ ∀ us, ¬ Rest s (t :: us)

section

variable {limits : InputLimits} {b : Blocks} {s : Option Stage} {t : Token}

theorem explains_goto {s' : Stage} (hclause : Stage.HasClause (some s'))
    (hrest : ∀ us, Rest s (t :: us) ↔ Rest (some s') us) : (b.goto s').Explains s t :=
  ⟨hclause, hrest⟩

/-- What is checked when an item is complete is no matter of syntax. -/
theorem explains_unless {p : Prop} [Decidable p] {e : CompileError} {next : Step} (he : e.category ≠ "syntax")
    (hnext : next.Explains s t) : (if p then .reject e else next).Explains s t := by
  split
  · exact fun h => absurd h he
  · exact hnext

theorem explains_addPose {pose : Pose} (hrest : ∀ us, Rest s (t :: us) ↔ IsText us) :
    (b.addPose limits pose).Explains s t :=
  explains_unless (by simp [CompileError.category]) (explains_unless (by simp [CompileError.category]) ⟨trivial, hrest⟩)

theorem explains_addAnimation {animation : Animation} (hrest : ∀ us, Rest s (t :: us) ↔ IsText us) :
    (b.addAnimation limits animation).Explains s t :=
  explains_unless (by simp [CompileError.category]) (explains_unless (by simp [CompileError.category]) ⟨trivial, hrest⟩)

theorem explains_addKeyframe {d : AnimationDraft} {k : Keyframe} (hrest : ∀ us, Rest s (t :: us) ↔ AnimationRest us) :
    (b.addKeyframe limits d k).Explains s t :=
  explains_unless (by simp [CompileError.category]) ⟨trivial, hrest⟩

theorem explains_addEntry {done : Array PlayEntry} {entry : PlayEntry} (hrest : ∀ us, Rest s (t :: us) ↔ MainRest us) :
    (b.addEntry limits done entry).Explains s t :=
  explains_unless (by simp [CompileError.category]) ⟨trivial, hrest⟩

theorem explains_openBlock : (b.openBlock t).Explains none t := by
  obtain ⟨kind, span⟩ := t
  cases kind with
  | keyword word =>
    simp only [Blocks.openBlock]
    split
    next h => exact explains_goto trivial (by simp [Rest, isText_cons, h])
    next h =>
      split
      next h' => exact explains_goto trivial (by simp [Rest, isText_cons, h'])
      next h' => exact fun _ => ⟨rfl, by simp [Rest, isText_cons, h, h']⟩
  | ident name =>
    simp only [Blocks.openBlock]
    split
    next h =>
      split
      next => simp [Step.Explains, CompileError.category]
      next => exact explains_goto trivial (by simp [Rest, isText_cons, h])
    next h => exact fun _ => ⟨rfl, by simp [Rest, isText_cons, h]⟩
  | _ => exact fun _ => ⟨rfl, by simp [Rest, isText_cons]⟩

/-- Inside a pose comes the name of a bone or the closing brace. -/
theorem explains_poseBody {pose : PoseDraft} :
    (b.continueBlock limits (.poseBody pose) t).Explains (some (.poseBody pose)) t := by
  obtain ⟨kind, span⟩ := t
  cases kind with
  | closeBrace => exact explains_addPose (by simp [Rest, poseRest_cons])
  | ident name =>
    simp only [Blocks.continueBlock]
    split
    next bone hbone =>
      have hname := bone_ofName?_iff.mp hbone
      exact explains_goto trivial (by simp [Rest, poseRest_cons, ← hname])
    next => simp [Step.Explains, CompileError.category]
  | _ => exact fun _ => ⟨rfl, by simp [Rest, poseRest_cons]⟩

/-- Where an action is due comes its word or, before the first clause, `reset`. -/
theorem explains_action {pose : PoseDraft} {statement : StatementDraft} :
    (b.continueBlock limits (.action pose statement) t).Explains (some (.action pose statement)) t := by
  obtain ⟨kind, span⟩ := t
  cases kind with
  | ident w =>
    simp only [Blocks.continueBlock]
    split
    next h =>
      obtain ⟨hempty, hw⟩ := Bool.and_eq_true_iff.mp h
      have haction : ∀ a : Action, ¬ sameWord a.word w := fun a ha => by simp [not_reset ha] at hw
      exact explains_goto trivial (by simp [Rest, ActionThen, hempty, hw, haction])
    next h =>
      have hreset : statement.done = #[] → ¬ sameWord "reset" w := by simpa using h
      split
      next a ha =>
        have hword : ∀ a' : Action, sameWord a'.word w ↔ a' = a := fun a' => by
          rw [← action_ofWord?_iff, ha, Option.some.injEq, eq_comm]
        exact explains_goto trivial (by simp +contextual [Rest, ActionThen, hword, hreset, ClausesRest])
      next hnone =>
        have hword : ∀ a : Action, ¬ sameWord a.word w := fun a ha => by
          rw [action_ofWord?_iff.mpr ha] at hnone
          cases hnone
        exact fun _ => ⟨rfl, by simp +contextual [Rest, ActionThen, hword, hreset]⟩
  | _ => exact fun _ => ⟨rfl, by simp [Rest, ActionThen]⟩

/-- After an action comes a direction that it has. -/
theorem explains_direction {pose : PoseDraft} {statement : StatementDraft} {a : Action} {word : Span} :
    (b.continueBlock limits (.direction pose statement a word) t).Explains
      (some (.direction pose statement a word)) t := by
  obtain ⟨kind, span⟩ := t
  cases kind with
  | ident w =>
    have hdirection (d : Direction) : (Direction.ofWord? w).filter (fun d => (a.axis? d).isSome) = some d ↔
        sameWord d.word w ∧ (a.axis? d).isSome := by
      rw [Option.filter_eq_some_iff, direction_ofWord?_iff]
    simp only [Blocks.continueBlock]
    split
    next d hd =>
      have hd : ∃ d : Direction, sameWord d.word w ∧ (a.axis? d).isSome := ⟨d, (hdirection d).mp hd⟩
      exact explains_goto trivial (by simp [Rest, DirectionThen, hd])
    next hnone =>
      refine fun _ => ⟨rfl, fun us => ?_⟩
      rintro ⟨w', _, _, heq, ⟨d, hd⟩, -⟩
      obtain rfl : w = w' := by simpa using congrArg (·.head?.map Token.kind) heq
      rw [(hdirection d).mpr hd] at hnone
      cases hnone
  | _ => exact fun _ => ⟨rfl, by simp [Rest, DirectionThen]⟩

theorem explains_clauseEnd {pose : PoseDraft} {statement : StatementDraft} (h : statement.done.isEmpty = false) :
    (b.continueBlock limits (.clauseEnd pose statement) t).Explains (some (.clauseEnd pose statement)) t := by
  obtain ⟨kind, span⟩ := t
  cases kind with
  | comma => exact explains_goto trivial (by simp [Rest, clausesRest_cons, h])
  | semicolon => exact explains_goto trivial (by simp [Rest, clausesRest_cons])
  | _ => exact fun _ => ⟨rfl, by simp [Rest, clausesRest_cons]⟩

theorem explains_animationBody {animation : AnimationDraft} :
    (b.continueBlock limits (.animationBody animation) t).Explains (some (.animationBody animation)) t := by
  obtain ⟨kind, span⟩ := t
  cases kind with
  | closeBrace => exact explains_addAnimation (by simp [Rest, animationRest_cons])
  | number time => exact explains_goto trivial (by simp [Rest, animationRest_cons])
  | _ => exact fun _ => ⟨rfl, by simp [Rest, animationRest_cons]⟩

theorem explains_mainBody {done : Array PlayEntry} :
    (b.continueBlock limits (.mainBody done) t).Explains (some (.mainBody done)) t := by
  obtain ⟨kind, span⟩ := t
  cases kind with
  | closeBrace => exact ⟨trivial, by simp [Rest, mainRest_cons]⟩
  | ident name => exact explains_goto trivial (by simp [Rest, mainRest_cons])
  | _ => exact fun _ => ⟨rfl, by simp [Rest, mainRest_cons]⟩

/-- **One token.** What may come behind a token that is read is what may come at the next stage; behind a token at which
there is a syntax error nothing may come. -/
theorem explains_step {r : Reader} (h : Stage.HasClause r.stage) : (r.step limits t).Explains r.stage t := by
  obtain ⟨b, _ | s⟩ := r
  · exact explains_openBlock
  · simp only [Reader.step]
    cases s with
    | poseBody => exact explains_poseBody
    | action => exact explains_action
    | direction => exact explains_direction
    | clauseEnd => exact explains_clauseEnd h
    | animationBody => exact explains_animationBody
    | mainBody => exact explains_mainBody
    | keyframeEnd =>
      obtain ⟨kind, span⟩ := t
      cases kind with
      | semicolon => exact explains_addKeyframe (by simp [Rest])
      | _ => exact fun _ => ⟨rfl, by simp [Rest]⟩
    | entryEnd =>
      obtain ⟨kind, span⟩ := t
      cases kind with
      | semicolon => exact explains_addEntry (by simp [Rest])
      | _ => exact fun _ => ⟨rfl, by simp [Rest]⟩
    | poseName | poseOpen | amount | resetEnd | animationName | animationOpen | colon | keyframePose | mainOpen =>
      -- these stages ask for one kind of token and go on to one stage
      obtain ⟨kind, span⟩ := t
      cases kind <;>
        simp [Blocks.continueBlock, Step.Explains, Blocks.goto, Stage.HasClause, StatementDraft.add, Rest,
          CompileError.location?]

end

/-! ### Something may come at every stage -/

section

variable {more : List Token → Prop}

theorem exists_mark (kind : TokenKind) (h : ∃ us, more us) : ∃ us, Mark kind more us :=
  h.imp' (⟨kind, default⟩ :: ·) fun us hus => ⟨default, us, rfl, hus⟩

theorem exists_word {more : String → List Token → Prop} (w : String) (h : ∃ us, more w us) : ∃ us, Word more us :=
  h.imp' (⟨.ident w, default⟩ :: ·) fun us hus => ⟨w, default, us, rfl, hus⟩

theorem exists_amount (h : ∃ us, more us) : ∃ us, Amount more us :=
  h.imp' (⟨.number 0, default⟩ :: ·) fun us hus => ⟨0, default, us, rfl, hus⟩

theorem exists_items {α : Type} {item : List Token → α → Prop} {mark : TokenKind} (h : ∃ us, more us) :
    ∃ us, Items item mark more us :=
  (exists_mark mark h).imp fun _ hus => items_iff.mpr (.inl hus)

/-- Every action has a direction. -/
theorem exists_axis?_isSome (a : Action) : ∃ d : Direction, (a.axis? d).isSome := by
  cases a with
  | bend => exact ⟨.forward, rfl⟩
  | turn => exact ⟨.left, rfl⟩
  | sway => exact ⟨.left, rfl⟩
  | move => exact ⟨.up, rfl⟩

theorem exists_directionThen (a : Action) (h : ∃ us, more us) : ∃ us, DirectionThen a more us := by
  obtain ⟨d, hd⟩ := exists_axis?_isSome a
  obtain ⟨us, hus⟩ := exists_amount h
  exact exists_word d.word ⟨us, ⟨d, sameWord_self _, hd⟩, hus⟩

theorem exists_actionThen (first : Bool) (h : ∃ us, more us) : ∃ us, ActionThen first more us := by
  obtain ⟨us, hus⟩ := exists_directionThen .bend (exists_items h)
  exact exists_word Action.bend.word ⟨us, .inr ⟨.bend, sameWord_self _, hus⟩⟩

theorem not_items_nil {α : Type} {item : List Token → α → Prop} {mark : TokenKind} : ¬ Items item mark more [] := by
  rintro ⟨us, as, rest, heq, -, hmark⟩
  obtain ⟨-, rfl⟩ := List.append_eq_nil_iff.mp heq.symm
  exact not_mark_nil hmark

end

/-- At every stage the tokens can be completed to a text. -/
theorem exists_rest (s : Option Stage) : ∃ us, Rest s us := by
  have htext : ∃ us, IsText us := ⟨[], [], .nil⟩
  have hpose : ∃ us, PoseRest us := exists_items htext
  have hclauses : ∃ us, ClausesRest us := exists_items hpose
  have hanimation : ∃ us, AnimationRest us := exists_items htext
  have hmain : ∃ us, MainRest us := exists_items htext
  rcases s with _ | s
  · exact htext
  · cases s with
    | poseName => exact exists_word "" (exists_mark _ hpose)
    | poseOpen => exact exists_mark _ hpose
    | poseBody => exact hpose
    | action => exact exists_actionThen _ hpose
    | direction => exact exists_directionThen _ hclauses
    | amount => exact exists_amount hclauses
    | clauseEnd => exact hclauses
    | resetEnd => exact exists_mark _ hpose
    | animationName => exact exists_word "" (exists_mark _ hanimation)
    | animationOpen => exact exists_mark _ hanimation
    | animationBody => exact hanimation
    | colon => exact exists_mark _ (exists_word "" (exists_mark _ hanimation))
    | keyframePose => exact exists_word "" (exists_mark _ hanimation)
    | keyframeEnd => exact exists_mark _ hanimation
    | mainOpen => exact exists_mark _ hmain
    | mainBody => exact hmain
    | entryEnd => exact exists_mark _ hmain

/-- Inside a block the text does not end. -/
theorem not_rest_nil (s : Stage) : ¬ Rest (some s) [] := by
  cases s with
  | poseBody | clauseEnd | animationBody | mainBody => exact not_items_nil
  | poseName | action | direction | animationName | keyframePose => exact not_word_nil
  | amount => exact not_amount_nil
  | poseOpen | resetEnd | animationOpen | colon | keyframeEnd | mainOpen | entryEnd => exact not_mark_nil

/-! ### A whole run -/

/-- From any stage a run stops with a syntax error at the first token that may not come, or at the end of the tokens if
all of them may come but more has to. -/
theorem of_run_eq_error {limits : InputLimits} {stop : Position} {r : Reader} {ts : List Token} {e : CompileError}
    (hclause : Stage.HasClause r.stage) (h : (r.run limits stop ts).1 = .error e) (hcategory : e.category = "syntax") :
    (∃ before t after, ts = before ++ t :: after ∧ e.location? = some t.span.location ∧
      (∃ us, Rest r.stage (before ++ us)) ∧ ∀ us, ¬ Rest r.stage (before ++ t :: us)) ∨
    (e.location? = some stop.location ∧ (∃ us, Rest r.stage (ts ++ us)) ∧ ¬ Rest r.stage ts) := by
  induction ts generalizing r with
  | nil =>
    obtain ⟨b, _ | s⟩ := r
    · cases h
    · obtain rfl := Except.error.inj h
      exact .inr ⟨rfl, exists_rest _, not_rest_nil s⟩
  | cons t ts ih =>
    have hstep : (r.step limits t).Explains r.stage t := explains_step hclause
    rw [Reader.run] at h
    generalize r.step limits t = step at h hstep
    cases step with
    | next r' =>
      -- what may come behind `t` is what may come at the next stage, so its error is the error here
      obtain ⟨hclause', hrest⟩ := hstep
      rcases ih hclause' h with ⟨before, u, after, rfl, hlocation, ⟨us, hus⟩, hno⟩ | ⟨hlocation, ⟨us, hus⟩, hno⟩
      · exact .inl ⟨t :: before, u, after, rfl, hlocation, ⟨us, (hrest _).mpr hus⟩,
          fun us hus => hno us ((hrest _).mp hus)⟩
      · exact .inr ⟨hlocation, ⟨us, (hrest _).mpr hus⟩, fun hts => hno ((hrest _).mp hts)⟩
    | refuse e' | reject e' =>
      obtain rfl := Except.error.inj h
      obtain ⟨hlocation, hno⟩ := hstep hcategory
      exact .inl ⟨[], t, ts, rfl, hlocation, exists_rest _, hno⟩

/-- **The earliest token.** A syntax error is about the first token with which the tokens no longer begin a text; or
about the end of the input, if all the tokens begin a text but are none. -/
theorem syntaxError_earliest {limits : InputLimits} {ts : Tokens} {e : CompileError}
    (h : (ts.readDocument limits).1 = .error e) (hcategory : e.category = "syntax") :
    (∃ before t after, ts.list = before ++ t :: after ∧ e.location? = some t.span.location ∧
      Viable before ∧ ¬ Viable (before ++ [t])) ∨
    (e.location? = some ts.stop.location ∧ Viable ts.list ∧ ¬ IsText ts.list) := by
  rcases of_run_eq_error (r := {}) trivial h hcategory with ⟨before, t, after, hts, hlocation, hviable, hno⟩ | hend
  · refine .inl ⟨before, t, after, hts, hlocation, hviable, ?_⟩
    rintro ⟨us, hus⟩
    rw [List.append_assoc] at hus
    exact hno us hus
  · exact .inr hend

/-- A clause without its semicolon, in the second of two poses of one name: the error is about the brace behind it. -/
theorem syntaxError_at_brace :
    let before : List Token := [.keyword "pose", .ident "rise", .openBrace, .closeBrace, .keyword "pose",
      .ident "rise", .openBrace, .ident "center", .ident "move", .ident "up", .number 2].map (⟨·, default⟩)
    let brace : Token := ⟨.closeBrace, ⟨40, 41, 3, 1⟩⟩
    let ts : Tokens := ⟨before ++ [brace], ⟨41, 3, 2⟩⟩
    let e : CompileError := .unexpected .statementEnd (some .closeBrace) ⟨3, 1⟩
    (ts.readDocument {}).1 = .error e ∧ Viable before ∧ ¬ Viable (before ++ [brace]) := by
  intro before brace ts e
  have hread : (ts.readDocument {}).1 = .error e := by decide +kernel
  refine ⟨hread, ?_⟩
  rcases syntaxError_earliest hread rfl with ⟨before', t, after, hts, hlocation, hviable⟩ | ⟨hlocation, -⟩
  · rcases List.eq_nil_or_concat' after with rfl | ⟨after, last, rfl⟩
    · obtain ⟨rfl, heq⟩ := List.append_inj' hts rfl
      rwa [heq]
    · -- a token before the brace has another place
      have hts : before ++ [brace] = (before' ++ t :: after) ++ [last] := hts.trans (by simp)
      have hbefore : before = before' ++ t :: after := (List.append_inj' hts rfl).1
      have ht : t ∈ before := hbefore ▸ List.mem_append_right _ List.mem_cons_self
      obtain ⟨kind, -, rfl⟩ := List.mem_map.mp ht
      cases hlocation
  · cases hlocation

end PoseLang
