import PoseLang.Proofs.Document.Faults
import PoseLang.Proofs.Document.Places
import PoseLang.Proofs.Document.Reader

/-!
# The token that an error is about

Behind the lexer every error with a place is about one token of the text, or about its end. Which one is said here by
the grammar (`IsAbout`): what stands in front of the token, or which phrase of the text it begins.

For an error of the reader this is a matter of what the reader has read before it: finished blocks, and of the block
that is open the tokens up to its stage (`Opened`, `Reader.HasRead`). One token either is read as well, or there is an
error about it or about the first token of the block that it ends (`blames_step`). So an error of a whole run is about
a token (`isAbout_of_run`).
-/

namespace PoseLang

open Grammar

/-! ### What errors are about -/

/-- Tokens behind which a statement may begin: blocks, the head of a pose, statements. -/
inductive BoneDue : List Token → Prop
  | mk {front body : List Token} {bs : List Block} {name : String} {statements : List Statement} {s₁ s₂ s₃ : Span} :
      Many IsBlock front bs → Many IsStatement body statements →
      BoneDue (front ++ ⟨.keyword "pose", s₁⟩ :: ⟨.ident name, s₂⟩ :: ⟨.openBrace, s₃⟩ :: body)

/-- The token that an error about some tokens is about; `none` is their end. -/
inductive IsAbout (ts : List Token) : CompileError → Option Token → Prop
  /-- Something is missing at the end. -/
  | atEnd {x : Expectation} {l : Location} : IsAbout ts (.unexpected x none l) none
  /-- The token that was found in the place of another. -/
  | unexpected {x : Expectation} {t : Token} {l : Location} : t ∈ ts →
      IsAbout ts (.unexpected x (some t.kind) l) (some t)
  /-- The token behind blocks that opens no block. -/
  | unknownBlock {front rest : List Token} {bs : List Block} {t : Token} {l : Location} :
      ts = front ++ t :: rest → Many IsBlock front bs → IsAbout ts (.unknownBlock t.kind l) (some t)
  /-- A name where a bone is due, which no bone has. -/
  | unknownBone {front rest : List Token} {name : String} {span : Span} {l : Location} :
      ts = front ++ ⟨.ident name, span⟩ :: rest → BoneDue front → (∀ b : Bone, b.name ≠ name) →
      IsAbout ts (.unknownName .bone name l) (some ⟨.ident name, span⟩)
  /-- The name of an entry of `main`, which no animation has. -/
  | unknownAnimation {bs : List Block} {es : List PlayEntry} {e : PlayEntry} {t : Token} {us : List Token}
      {l : Location} :
      Many IsBlock ts bs → es ∈ mains bs → e ∈ es → e.animation ∉ (animations bs).map (·.name) →
      t :: us <:+: ts → IsEntry (t :: us) e → IsAbout ts (.unknownName .animation e.animation l) (some t)
  /-- The time of a keyframe whose pose is not there. -/
  | unknownPose {bs : List Block} {a : Animation} {k : Keyframe} {t : Token} {us : List Token} {l : Location} :
      Many IsBlock ts bs → a ∈ animations bs → k ∈ a.keyframes → k.pose ∉ (poses bs).map (·.name) →
      t :: us <:+: ts → IsKeyframe (t :: us) k → IsAbout ts (.unknownName .pose k.pose l) (some t)
  /-- The time of a keyframe behind another keyframe at that time. -/
  | duplicateTime {bs : List Block} {a : Animation} {j k : Keyframe} {t : Token} {us : List Token} {l : Location} :
      Many IsBlock ts bs → a ∈ animations bs → [j, k].Sublist a.keyframes → j.time = k.time →
      t :: us <:+: ts → IsKeyframe (t :: us) k → IsAbout ts (.duplicateTime a.name k.time l) (some t)
  /-- The action of a clause with which something is wrong. -/
  | fault {bs : List Block} {p : Pose} {s : Statement} {site : Site} {e : CompileError} {t : Token} {us : List Token} :
      Many IsBlock ts bs → p ∈ poses bs → s ∈ p.statements → site ∈ s.sites → site.Fault e →
      t :: us <:+: ts → IsClause (t :: us) site.clause → IsAbout ts e (some t)
  /-- The keyword of a pose behind blocks with a pose of that name. -/
  | duplicatePose {front us rest : List Token} {bs : List Block} {p : Pose} {t : Token} {l : Location} :
      ts = front ++ (t :: us) ++ rest → Many IsBlock front bs → IsBlock (t :: us) (.pose p) →
      p.name ∈ (poses bs).map (·.name) → IsAbout ts (.duplicateName .pose p.name l) (some t)
  /-- The keyword of an animation behind blocks with an animation of that name. -/
  | duplicateAnimation {front us rest : List Token} {bs : List Block} {a : Animation} {t : Token} {l : Location} :
      ts = front ++ (t :: us) ++ rest → Many IsBlock front bs → IsBlock (t :: us) (.animation a) →
      a.name ∈ (animations bs).map (·.name) → IsAbout ts (.duplicateName .animation a.name l) (some t)
  /-- The second `main`. -/
  | duplicateMain {front rest : List Token} {bs : List Block} {span : Span} {l : Location} :
      ts = front ++ ⟨.ident "main", span⟩ :: rest → Many IsBlock front bs → (mains bs).length = 1 →
      IsAbout ts (.duplicateName .mainBlock "main" l) (some ⟨.ident "main", span⟩)

theorem IsAbout.mem {ts : List Token} {e : CompileError} {t : Token} (h : IsAbout ts e (some t)) : t ∈ ts := by
  cases h with
  | unexpected ht => exact ht
  | unknownBlock hts | unknownBone hts | duplicatePose hts | duplicateAnimation hts | duplicateMain hts => simp [hts]
  | unknownAnimation _ _ _ _ hus | unknownPose _ _ _ _ hus | duplicateTime _ _ _ _ hus | fault _ _ _ _ _ hus =>
    exact hus.subset List.mem_cons_self

/-! ### What was read -/

theorem Grammar.Many.concat {α : Type} {phrase : List Token → α → Prop} {ts us : List Token} {as : List α} {a : α}
    (h : Many phrase ts as) (ha : phrase us a) : Many phrase (ts ++ us) (as ++ [a]) := by
  induction h with
  | nil => simpa using Many.cons ha .nil
  | cons hb _ ih =>
    rw [List.append_assoc]
    exact .cons hb ih

/-- The tokens of a block that was opened behind others, up to a stage. A `main` is opened only behind none. -/
inductive Opened (b : Blocks) : Stage → List Token → Prop
  | poseName {s₁ : Span} : Opened b (.poseName s₁) [⟨.keyword "pose", s₁⟩]
  | poseOpen {s₁ s₂ : Span} {name : String} : Opened b (.poseOpen s₁ name) [⟨.keyword "pose", s₁⟩, ⟨.ident name, s₂⟩]
  | poseBody {s₁ s₂ s₃ : Span} {name : String} {done : Array Statement} {body : List Token} :
      Many IsStatement body done.toList →
      Opened b (.poseBody ⟨s₁, name, done⟩) (⟨.keyword "pose", s₁⟩ :: ⟨.ident name, s₂⟩ :: ⟨.openBrace, s₃⟩ :: body)
  | firstAction {pose : PoseDraft} {bone : Bone} {s₁ : Span} {ts : List Token} : Opened b (.poseBody pose) ts →
      Opened b (.action pose ⟨bone, s₁, #[]⟩) (ts ++ [⟨.ident bone.name, s₁⟩])
  | nextAction {pose : PoseDraft} {statement : StatementDraft} {s : Span} {ts : List Token} :
      Opened b (.clauseEnd pose statement) ts → Opened b (.action pose statement) (ts ++ [⟨.comma, s⟩])
  | direction {pose : PoseDraft} {statement : StatementDraft} {a : Action} {word : String} {s : Span}
      {ts : List Token} : Opened b (.action pose statement) ts → sameWord a.word word →
      Opened b (.direction pose statement a s) (ts ++ [⟨.ident word, s⟩])
  | amount {pose : PoseDraft} {statement : StatementDraft} {a : Action} {d : Direction} {word : String} {s s' : Span}
      {ts : List Token} : Opened b (.direction pose statement a s) ts → sameWord d.word word → (a.axis? d).isSome →
      Opened b (.amount pose statement a d s) (ts ++ [⟨.ident word, s'⟩])
  | clauseEnd {pose : PoseDraft} {bone : Bone} {s₁ : Span} {done : Array Clause} {c : Clause} {cs : List Clause}
      {ts us vs : List Token} : Opened b (.poseBody pose) ts → IsClause us c → Many IsNextClause vs cs →
      done.toList = c :: cs → Opened b (.clauseEnd pose ⟨bone, s₁, done⟩) (ts ++ ⟨.ident bone.name, s₁⟩ :: (us ++ vs))
  | resetEnd {pose : PoseDraft} {bone : Bone} {word : String} {s₁ s₂ : Span} {ts : List Token} :
      Opened b (.poseBody pose) ts → sameWord "reset" word →
      Opened b (.resetEnd pose ⟨bone, s₁, #[]⟩) (ts ++ [⟨.ident bone.name, s₁⟩, ⟨.ident word, s₂⟩])
  | animationName {s₁ : Span} : Opened b (.animationName s₁) [⟨.keyword "animation", s₁⟩]
  | animationOpen {s₁ s₂ : Span} {name : String} :
      Opened b (.animationOpen s₁ name) [⟨.keyword "animation", s₁⟩, ⟨.ident name, s₂⟩]
  | animationBody {s₁ s₂ s₃ : Span} {name : String} {done : Array Keyframe} {body : List Token} :
      Many IsKeyframe body done.toList →
      Opened b (.animationBody ⟨s₁, name, done⟩)
        (⟨.keyword "animation", s₁⟩ :: ⟨.ident name, s₂⟩ :: ⟨.openBrace, s₃⟩ :: body)
  | colon {animation : AnimationDraft} {time : Float} {s : Span} {ts : List Token} :
      Opened b (.animationBody animation) ts → Opened b (.colon animation time s) (ts ++ [⟨.number time, s⟩])
  | keyframePose {animation : AnimationDraft} {time : Float} {s s' : Span} {ts : List Token} :
      Opened b (.colon animation time s) ts → Opened b (.keyframePose animation time s) (ts ++ [⟨.colon, s'⟩])
  | keyframeEnd {animation : AnimationDraft} {time : Float} {pose : String} {s s' : Span} {ts : List Token} :
      Opened b (.keyframePose animation time s) ts →
      Opened b (.keyframeEnd animation ⟨time, pose, s⟩) (ts ++ [⟨.ident pose, s'⟩])
  | mainOpen {s₁ : Span} : b.main = none → Opened b .mainOpen [⟨.ident "main", s₁⟩]
  | mainBody {s₁ s₂ : Span} {done : Array PlayEntry} {body : List Token} : b.main = none →
      Many IsEntry body done.toList → Opened b (.mainBody done) (⟨.ident "main", s₁⟩ :: ⟨.openBrace, s₂⟩ :: body)
  | entryEnd {done : Array PlayEntry} {name : String} {s : Span} {ts : List Token} : Opened b (.mainBody done) ts →
      Opened b (.entryEnd done ⟨name, s⟩) (ts ++ [⟨.ident name, s⟩])

/-- The reader has taken in no names but those of these blocks. -/
structure Blocks.Knows (b : Blocks) (bs : List Block) : Prop where
  poses : ∀ q ∈ b.poses, q.1 ∈ (Grammar.poses bs).map (·.name)
  animations : ∀ q ∈ b.animations, q.1 ∈ (Grammar.animations bs).map (·.name)
  main : mains bs = b.main.toList

/-- The tokens that a reader has read: blocks, and those of the open block. -/
inductive Reader.HasRead : Reader → List Token → Prop
  | between {b : Blocks} {bs : List Block} {front : List Token} : Many IsBlock front bs → b.Knows bs →
      HasRead ⟨b, none⟩ front
  | inside {b : Blocks} {bs : List Block} {s : Stage} {front ts : List Token} : Many IsBlock front bs → b.Knows bs →
      Opened b s ts → HasRead ⟨b, some s⟩ (front ++ ts)

/-! ### Items that are complete -/

section Items

variable {b : Blocks} {ts : List Token} {span : Span}

theorem Opened.addStatement {pose : PoseDraft} {s : Statement} {us : List Token} (h : Opened b (.poseBody pose) ts)
    (hs : IsStatement us s) : Opened b (.poseBody (pose.add s)) (ts ++ us) := by
  cases h with
  | poseBody hbody =>
    have hmore := hbody.concat hs
    rw [← Array.toList_push] at hmore
    exact .poseBody hmore

/-- A number completes a clause, be it the first of its statement or a further one. -/
theorem Opened.addClause {pose : PoseDraft} {statement : StatementDraft} {a : Action} {d : Direction} {word : Span}
    (h : Opened b (.amount pose statement a d word) ts) (value : Float) :
    Opened b (.clauseEnd pose (statement.add ⟨a, d, value, word⟩)) (ts ++ [⟨.number value, span⟩]) := by
  cases h with
  | @amount _ _ _ _ w' _ s' _ hdirection hd haxis =>
    cases hdirection with
    | @direction _ _ _ w _ _ haction ha =>
      have hclause : IsClause [⟨.ident w, word⟩, ⟨.ident w', s'⟩, ⟨.number value, span⟩] ⟨a, d, value, word⟩ :=
        .mk ha hd haxis
      cases haction with
      | @firstAction _ bone s₁ _ hpose =>
        have hopened : Opened b (.clauseEnd pose ⟨bone, s₁, #[⟨a, d, value, word⟩]⟩) _ :=
          .clauseEnd hpose hclause .nil rfl
        simpa [StatementDraft.add] using hopened
      | @nextAction _ _ s _ hclauses =>
        cases hclauses with
        | @clauseEnd _ bone s₁ done _ _ _ _ _ hpose hfirst hnext hdone =>
          have hmore := hnext.concat (IsNextClause.mk (s := s) hclause)
          have hopened : Opened b (.clauseEnd pose ⟨bone, s₁, done.push ⟨a, d, value, word⟩⟩) _ :=
            .clauseEnd hpose hfirst hmore (by simp [hdone])
          simpa [StatementDraft.add] using hopened

theorem Opened.endStatement {pose : PoseDraft} {statement : StatementDraft}
    (h : Opened b (.clauseEnd pose statement) ts) :
    Opened b (.poseBody (pose.add statement.finish)) (ts ++ [⟨.semicolon, span⟩]) := by
  cases h with
  | @clauseEnd _ bone s₁ done c cs _ us vs hpose hfirst hnext hdone =>
    have hstatement : IsStatement (⟨.ident bone.name, s₁⟩ :: (us ++ (vs ++ [⟨.semicolon, span⟩])))
        ⟨bone, .actions (c :: cs), s₁⟩ := .actions hfirst hnext
    rw [← hdone] at hstatement
    simpa [StatementDraft.finish] using hpose.addStatement hstatement

theorem Opened.endReset {pose : PoseDraft} {statement : StatementDraft} (h : Opened b (.resetEnd pose statement) ts) :
    Opened b (.poseBody (pose.add statement.reset)) (ts ++ [⟨.semicolon, span⟩]) := by
  cases h with
  | @resetEnd _ bone word s₁ s₂ _ hpose hword =>
    have hstatement : IsStatement [⟨.ident bone.name, s₁⟩, ⟨.ident word, s₂⟩, ⟨.semicolon, span⟩] ⟨bone, .reset, s₁⟩ :=
      .reset hword
    simpa [StatementDraft.reset] using hpose.addStatement hstatement

theorem Opened.addKeyframe {animation : AnimationDraft} {k : Keyframe} (h : Opened b (.keyframeEnd animation k) ts) :
    Opened b (.animationBody (animation.add k)) (ts ++ [⟨.semicolon, span⟩]) := by
  cases h with
  | @keyframeEnd _ time pose s s₃ _ hpose =>
    cases hpose with
    | @keyframePose _ _ _ s₂ _ hcolon =>
      cases hcolon with
      | colon hbody =>
        cases hbody with
        | @animationBody _ _ _ _ done _ hkeyframes =>
          have hkeyframe : IsKeyframe [⟨.number time, s⟩, ⟨.colon, s₂⟩, ⟨.ident pose, s₃⟩, ⟨.semicolon, span⟩]
              ⟨time, pose, s⟩ := .mk
          have hmore := hkeyframes.concat hkeyframe
          rw [← Array.toList_push] at hmore
          simpa [AnimationDraft.add] using Opened.animationBody hmore

theorem Opened.addEntry {done : Array PlayEntry} {e : PlayEntry} (h : Opened b (.entryEnd done e) ts) :
    Opened b (.mainBody (done.push e)) (ts ++ [⟨.semicolon, span⟩]) := by
  cases h with
  | @entryEnd _ name s _ hbody =>
    cases hbody with
    | mainBody hmain hentries =>
      have hentry : IsEntry [⟨.ident name, s⟩, ⟨.semicolon, span⟩] ⟨name, s⟩ := .mk
      have hmore := hentries.concat hentry
      rw [← Array.toList_push] at hmore
      simpa using Opened.mainBody hmain hmore

theorem Opened.isBlock_pose {pose : PoseDraft} (h : Opened b (.poseBody pose) ts) :
    IsBlock (ts ++ [⟨.closeBrace, span⟩]) (.pose pose.finish) := by
  cases h with
  | poseBody hbody => exact .pose hbody

theorem Opened.isBlock_animation {animation : AnimationDraft} (h : Opened b (.animationBody animation) ts) :
    IsBlock (ts ++ [⟨.closeBrace, span⟩]) (.animation animation.finish) := by
  cases h with
  | animationBody hbody => exact .animation hbody

theorem Opened.isBlock_main {done : Array PlayEntry} (h : Opened b (.mainBody done) ts) :
    b.main = none ∧ IsBlock (ts ++ [⟨.closeBrace, span⟩]) (.main done.toList) := by
  cases h with
  | mainBody hmain hbody => exact ⟨hmain, .main hbody⟩

/-- `reset` stands where no clause was before. -/
theorem Opened.reset {pose : PoseDraft} {statement : StatementDraft} {word : String}
    (h : Opened b (.action pose statement) ts) (hempty : statement.done.isEmpty = true)
    (hword : sameWord "reset" word) :
    Opened b (.resetEnd pose statement) (ts ++ [⟨.ident word, span⟩]) := by
  cases h with
  | firstAction hpose => simpa using Opened.resetEnd hpose hword
  | nextAction hclauses =>
    cases hclauses with
    | clauseEnd _ _ _ hdone =>
      rw [Array.isEmpty_iff] at hempty
      subst hempty
      cases hdone

end Items

/-! ### One token -/

/-- What a token does behind those that were read: it is read as well, or there is an error, and if that has a place it
is about one of the tokens so far. -/
def Step.Blames (front : List Token) (t : Token) : Step → Prop
  | .next r => r.HasRead (front ++ [t])
  | .refuse e | .reject e =>
    ∀ l, e.location? = some l → ∀ rest, ∃ u, IsAbout (front ++ t :: rest) e (some u) ∧ u.span.location = l

theorem blames_unexpected {front : List Token} {t : Token} {x : Expectation} :
    (Step.refuse (.unexpected x (some t.kind) t.span.location)).Blames front t := by
  intro l hl rest
  exact ⟨t, .unexpected (by simp), Option.some.inj hl⟩

theorem blames_tooLarge {front : List Token} {t : Token} {what : Quantity} {n : Nat} :
    (Step.reject (.tooLarge what n)).Blames front t := by
  intro l hl
  cases hl

/-- A definition is taken in unless there are too many or its name is known. -/
theorem blames_define {β : Type} {front : List Token} {t : Token} {p : Prop} [Decidable p] {what : Quantity} {n : Nat}
    {known : Array (String × β)} {names : List String} {kind : NameKind} {name : String} {l : Location} {next : Step}
    (hknown : ∀ q ∈ known, q.1 ∈ names)
    (hduplicate : name ∈ names → (Step.reject (.duplicateName kind name l)).Blames front t)
    (hnext : next.Blames front t) :
    (if p then .reject (.tooLarge what n)
      else if known.any (·.1 = name) then .reject (.duplicateName kind name l) else next).Blames front t := by
  split
  · exact blames_tooLarge
  · split
    next hany =>
      obtain ⟨q, hq, hname⟩ := Array.any_eq_true'.mp hany
      exact hduplicate (of_decide_eq_true hname ▸ hknown q hq)
    next => exact hnext

theorem keys_push {β : Type} {known : Array (String × β)} {names : List String} (h : ∀ q ∈ known, q.1 ∈ names)
    (name : String) (v : β) : ∀ q ∈ known.push (name, v), q.1 ∈ names ++ [name] := by
  intro q hq
  rcases Array.mem_push.mp hq with hq | rfl
  · exact List.mem_append_left _ (h q hq)
  · exact List.mem_append_right _ List.mem_cons_self

namespace Blocks.Knows

variable {b : Blocks} {bs : List Block}

theorem pose (h : b.Knows bs) (p : Pose) : Knows { b with poses := b.poses.push (p.name, p) } (bs ++ [.pose p]) where
  poses := by simpa using keys_push h.poses p.name p
  animations := by simpa using h.animations
  main := by simpa using h.main

theorem animation (h : b.Knows bs) (a : Animation) :
    Knows { b with animations := b.animations.push (a.name, a) } (bs ++ [.animation a]) where
  poses := by simpa using h.poses
  animations := by simpa using keys_push h.animations a.name a
  main := by simpa using h.main

theorem mainBlock (h : b.Knows bs) (hnone : b.main = none) (entries : List PlayEntry) :
    Knows { b with main := some entries } (bs ++ [.main entries]) where
  poses := by simpa using h.poses
  animations := by simpa using h.animations
  main := by simp [h.main, hnone]

end Blocks.Knows

/-- The place of a definition is that of its keyword. -/
theorem Grammar.IsBlock.exists_keyword {ts : List Token} {block : Block} (h : IsBlock ts block) :
    ∃ t us, ts = t :: us ∧ (∀ p, block = .pose p → t.span = p.span) ∧ ∀ a, block = .animation a → t.span = a.span := by
  cases h <;> exact ⟨_, _, rfl, by simp, by simp⟩

section Steps

variable {limits : InputLimits} {b : Blocks} {bs : List Block} {front ts : List Token} {t : Token}
variable (hbs : Many IsBlock front bs) (hb : b.Knows bs)

include hbs hb

theorem blames_goto {s : Stage} (h : Opened b s (ts ++ [t])) : (b.goto s).Blames (front ++ ts) t := by
  have hread : Reader.HasRead ⟨b, some s⟩ (front ++ (ts ++ [t])) := .inside hbs hb h
  rwa [← List.append_assoc] at hread

omit hb in
theorem blames_next {block : Block} {b' : Blocks} (h : IsBlock (ts ++ [t]) block) (hb' : b'.Knows (bs ++ [block])) :
    (Step.next ⟨b', none⟩).Blames (front ++ ts) t := by
  have hread : Reader.HasRead ⟨b', none⟩ (front ++ (ts ++ [t])) := .between (hbs.concat h) hb'
  rwa [← List.append_assoc] at hread

/-- A pose that ends is one more block, or there is an error about its keyword. -/
theorem blames_addPose {p : Pose} (h : IsBlock (ts ++ [t]) (.pose p)) :
    (b.addPose limits p).Blames (front ++ ts) t := by
  refine blames_define hb.poses (fun hname l hl rest => ?_) (blames_next hbs h (hb.pose p))
  obtain ⟨u, us, hus, hspan, -⟩ := h.exists_keyword
  have hts : front ++ ts ++ t :: rest = front ++ (u :: us) ++ rest := by
    rw [← hus]
    simp
  refine ⟨u, .duplicatePose hts hbs (hus ▸ h) hname, ?_⟩
  rw [hspan p rfl]
  exact Option.some.inj hl

/-- An animation that ends is one more block, or there is an error about its keyword. -/
theorem blames_addAnimation {a : Animation} (h : IsBlock (ts ++ [t]) (.animation a)) :
    (b.addAnimation limits a).Blames (front ++ ts) t := by
  refine blames_define hb.animations (fun hname l hl rest => ?_) (blames_next hbs h (hb.animation a))
  obtain ⟨u, us, hus, -, hspan⟩ := h.exists_keyword
  have hts : front ++ ts ++ t :: rest = front ++ (u :: us) ++ rest := by
    rw [← hus]
    simp
  refine ⟨u, .duplicateAnimation hts hbs (hus ▸ h) hname, ?_⟩
  rw [hspan a rfl]
  exact Option.some.inj hl

/-- Between blocks. -/
theorem blames_openBlock : (b.openBlock t).Blames front t := by
  have hgoto {s : Stage} (h : Opened b s [t]) : (b.goto s).Blames front t := by
    have hread : (b.goto s).Blames (front ++ []) t := blames_goto hbs hb h
    rwa [List.append_nil] at hread
  have hunknown : (Step.refuse (.unknownBlock t.kind t.span.location)).Blames front t := fun l hl rest =>
    ⟨t, .unknownBlock rfl hbs, Option.some.inj hl⟩
  obtain ⟨kind, span⟩ := t
  cases kind with
  | keyword word =>
    simp only [Blocks.openBlock]
    split
    next h =>
      subst h
      exact hgoto .poseName
    next =>
      split
      next h =>
        subst h
        exact hgoto .animationName
      next => exact hunknown
  | ident name =>
    simp only [Blocks.openBlock]
    split
    next h =>
      subst h
      split
      next hmain =>
        obtain ⟨es, hes⟩ := Option.isSome_iff_exists.mp hmain
        have hone : (mains bs).length = 1 := by rw [hb.main, hes]; rfl
        exact fun l hl rest => ⟨_, .duplicateMain rfl hbs hone, Option.some.inj hl⟩
      next hmain => exact hgoto (.mainOpen (by simpa using hmain))
    next => exact hunknown
  | _ => exact hunknown

/-- Inside a pose comes the name of a bone or the closing brace. -/
theorem blames_poseBody {pose : PoseDraft} (h : Opened b (.poseBody pose) ts) :
    (b.continueBlock limits (.poseBody pose) t).Blames (front ++ ts) t := by
  obtain ⟨kind, span⟩ := t
  cases kind with
  | closeBrace => exact blames_addPose hbs hb h.isBlock_pose
  | ident name =>
    simp only [Blocks.continueBlock]
    split
    next bone hbone =>
      obtain rfl := bone_ofName?_iff.mp hbone
      exact blames_goto hbs hb (.firstAction h)
    next hnone =>
      intro l hl rest
      have hdue : BoneDue (front ++ ts) := by
        cases h with
        | poseBody hbody => exact .mk hbs hbody
      refine ⟨_, .unknownBone rfl hdue fun bone hbone => ?_, Option.some.inj hl⟩
      rw [bone_ofName?_iff.mpr hbone] at hnone
      cases hnone
  | _ => exact blames_unexpected

/-- Where an action is due comes its word or, before the first clause, `reset`. -/
theorem blames_action {pose : PoseDraft} {statement : StatementDraft} (h : Opened b (.action pose statement) ts) :
    (b.continueBlock limits (.action pose statement) t).Blames (front ++ ts) t := by
  obtain ⟨kind, span⟩ := t
  cases kind with
  | ident w =>
    simp only [Blocks.continueBlock]
    split
    next hreset =>
      obtain ⟨hempty, hw⟩ := Bool.and_eq_true_iff.mp hreset
      exact blames_goto hbs hb (h.reset hempty hw)
    next =>
      split
      next a ha => exact blames_goto hbs hb (.direction h (action_ofWord?_iff.mp ha))
      next => exact fun l => blames_unexpected (t := ⟨.ident w, span⟩) l
  | _ => exact blames_unexpected

/-- After an action comes a direction that it has. -/
theorem blames_direction {pose : PoseDraft} {statement : StatementDraft} {a : Action} {word : Span}
    (h : Opened b (.direction pose statement a word) ts) :
    (b.continueBlock limits (.direction pose statement a word) t).Blames (front ++ ts) t := by
  obtain ⟨kind, span⟩ := t
  cases kind with
  | ident w =>
    simp only [Blocks.continueBlock]
    split
    next d hd =>
      obtain ⟨hword, haxis⟩ := Option.filter_eq_some_iff.mp hd
      exact blames_goto hbs hb (.amount h (direction_ofWord?_iff.mp hword) haxis)
    next => exact fun l => blames_unexpected (t := ⟨.ident w, span⟩) l
  | _ => exact blames_unexpected

theorem blames_keyframeEnd {animation : AnimationDraft} {k : Keyframe} (h : Opened b (.keyframeEnd animation k) ts) :
    (b.continueBlock limits (.keyframeEnd animation k) t).Blames (front ++ ts) t := by
  obtain ⟨kind, span⟩ := t
  cases kind with
  | semicolon =>
    simp only [Blocks.continueBlock, Blocks.addKeyframe]
    split
    · exact blames_tooLarge
    · exact blames_goto hbs hb h.addKeyframe
  | _ => exact blames_unexpected

theorem blames_entryEnd {done : Array PlayEntry} {e : PlayEntry} (h : Opened b (.entryEnd done e) ts) :
    (b.continueBlock limits (.entryEnd done e) t).Blames (front ++ ts) t := by
  obtain ⟨kind, span⟩ := t
  cases kind with
  | semicolon =>
    simp only [Blocks.continueBlock, Blocks.addEntry]
    split
    · exact blames_tooLarge
    · exact blames_goto hbs hb h.addEntry
  | _ => exact blames_unexpected

/-- Inside a block. -/
theorem blames_continueBlock {s : Stage} (h : Opened b s ts) : (b.continueBlock limits s t).Blames (front ++ ts) t := by
  obtain ⟨kind, span⟩ := t
  -- one case for each stage, and in it the kinds of tokens that the stage asks for
  cases s with
  | poseBody => exact blames_poseBody hbs hb h
  | action => exact blames_action hbs hb h
  | direction => exact blames_direction hbs hb h
  | keyframeEnd => exact blames_keyframeEnd hbs hb h
  | entryEnd => exact blames_entryEnd hbs hb h
  | poseName =>
    cases kind with
    | ident name =>
      cases h
      exact blames_goto hbs hb .poseOpen
    | _ => exact blames_unexpected
  | poseOpen =>
    cases kind with
    | openBrace =>
      cases h
      exact blames_goto hbs hb (.poseBody .nil)
    | _ => exact blames_unexpected
  | amount =>
    cases kind with
    | number value => exact blames_goto hbs hb (h.addClause value)
    | _ => exact blames_unexpected
  | clauseEnd =>
    cases kind with
    | comma => exact blames_goto hbs hb (.nextAction h)
    | semicolon => exact blames_goto hbs hb h.endStatement
    | _ => exact blames_unexpected
  | resetEnd =>
    cases kind with
    | semicolon => exact blames_goto hbs hb h.endReset
    | _ => exact blames_unexpected
  | animationName =>
    cases kind with
    | ident name =>
      cases h
      exact blames_goto hbs hb .animationOpen
    | _ => exact blames_unexpected
  | animationOpen =>
    cases kind with
    | openBrace =>
      cases h
      exact blames_goto hbs hb (.animationBody .nil)
    | _ => exact blames_unexpected
  | animationBody =>
    cases kind with
    | closeBrace => exact blames_addAnimation hbs hb h.isBlock_animation
    | number time => exact blames_goto hbs hb (.colon h)
    | _ => exact blames_unexpected
  | colon =>
    cases kind with
    | colon => exact blames_goto hbs hb (.keyframePose h)
    | _ => exact blames_unexpected
  | keyframePose =>
    cases kind with
    | ident pose => exact blames_goto hbs hb (.keyframeEnd h)
    | _ => exact blames_unexpected
  | mainOpen =>
    cases kind with
    | openBrace =>
      cases h with
      | mainOpen hmain => exact blames_goto hbs hb (.mainBody hmain .nil)
    | _ => exact blames_unexpected
  | mainBody =>
    cases kind with
    | closeBrace =>
      obtain ⟨hmain, hblock⟩ := h.isBlock_main
      exact blames_next hbs hblock (hb.mainBlock hmain _)
    | ident name => exact blames_goto hbs hb (.entryEnd h)
    | _ => exact blames_unexpected

end Steps

/-- **One token.** It is read behind those that were read, or there is an error about it or about the first token of the
block that it ends. -/
theorem blames_step {limits : InputLimits} {r : Reader} {front : List Token} (h : r.HasRead front) (t : Token) :
    (r.step limits t).Blames front t := by
  cases h with
  | between hbs hb => exact blames_openBlock hbs hb
  | inside hbs hb hopened => exact blames_continueBlock hbs hb hopened

/-! ### A whole run -/

/-- The place of a token, or of the end. -/
def Tokens.placeOf (ts : Tokens) : Option Token → Location
  | some t => t.span.location
  | none => ts.stop.location

/-- **A run.** Its error is about one of the tokens, or about their end, and has that place. -/
theorem isAbout_of_run {limits : InputLimits} {stop : Position} {r : Reader} {front ts : List Token} {e : CompileError}
    {l : Location} (hread : r.HasRead front) (h : (r.run limits stop ts).1 = .error e) (hl : e.location? = some l) :
    ∃ t, IsAbout (front ++ ts) e t ∧ Tokens.placeOf ⟨front ++ ts, stop⟩ t = l := by
  induction ts generalizing r front with
  | nil =>
    obtain ⟨b, _ | s⟩ := r
    · cases h
    · obtain rfl := Except.error.inj h
      exact ⟨none, .atEnd, Option.some.inj hl⟩
  | cons t ts ih =>
    have hstep : (r.step limits t).Blames front t := blames_step hread t
    rw [Reader.run] at h
    generalize r.step limits t = step at h hstep
    cases step with
    | next r' =>
      obtain ⟨u, hu, hplace⟩ := ih hstep h
      rw [List.append_assoc] at hu
      exact ⟨u, hu, hplace⟩
    | refuse e' | reject e' =>
      obtain rfl := Except.error.inj h
      obtain ⟨u, hu, hplace⟩ := hstep l hl ts
      exact ⟨some u, hu, hplace⟩

theorem hasRead_start : Reader.HasRead {} [] :=
  .between .nil ⟨nofun, nofun, rfl⟩

theorem isAbout_of_readDocument {limits : InputLimits} {ts : Tokens} {e : CompileError} {l : Location}
    (h : (ts.readDocument limits).1 = .error e) (hl : e.location? = some l) :
    ∃ t, IsAbout ts.list e t ∧ ts.placeOf t = l :=
  isAbout_of_run hasRead_start h hl

end PoseLang
