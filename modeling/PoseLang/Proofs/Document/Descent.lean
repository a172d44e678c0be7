import PoseLang.Document.Reader

/-!
# Reading by productions

A second way to read a document: each production of the grammar calls those that it is made of, one behind the other,
and repetition is a loop. A production starts at some position in the tokens. It looks at the token there and goes past
it, but never past the end of the input: `advance` stays there. So a loop that went on at the end would have no end.

For this to be said, each loop may take a given number of rounds only, and one that wants more is cut off
(`Outcome.cutOff`). What a production does is stated as what it gives and where it ends, or as its error and where that
is (`Production.Meets`). There is one rule for each way to build a production:

* `meets_pure`, `meets_fail`, `Meets.bind`, `Meets.mono` for productions in a row;
* `meets_advance`, `meets_expect` for single tokens;
* `Loop.meets_run` for loops: what each round keeps holds when the loop ends. The loop ends, within as many rounds as
  tokens are left, if each round goes forward and none is begun at the end of the input.
-/

namespace PoseLang.Descent

/-- What productions work with. -/
structure Scope where
  tokens : Tokens
  limits : InputLimits
  /-- The most rounds that a loop may take. -/
  rounds : Nat

namespace Scope

/-- The last position, which is that of the end of the input. -/
def last (E : Scope) : Nat := E.tokens.list.length

/-- The kind of the token at a position; none at the end of the input. -/
def kind? (E : Scope) (p : Nat) : Option TokenKind := E.tokens.list[p]?.map Token.kind

/-- The stretch of the token at a position; an empty one at the end of the input. -/
def span (E : Scope) (p : Nat) : Span :=
  match E.tokens.list[p]? with
  | some t => t.span
  | none => .between E.tokens.stop E.tokens.stop

theorem getElem?_of_kind? {E : Scope} {p : Nat} {kind : TokenKind} (h : E.kind? p = some kind) :
    E.tokens.list[p]? = some ⟨kind, E.span p⟩ := by
  obtain ⟨t, ht, rfl⟩ := Option.map_eq_some_iff.mp h
  rw [span, ht]

theorem lt_last {E : Scope} {p : Nat} {kind : TokenKind} (h : E.kind? p = some kind) : p < E.last :=
  (List.getElem?_eq_some_iff.mp (getElem?_of_kind? h)).1

theorem kind?_eq_none_iff {E : Scope} {p : Nat} : E.kind? p = none ↔ E.last ≤ p :=
  Option.map_eq_none_iff.trans List.getElem?_eq_none_iff

end Scope

/-- How a production ends. -/
inductive Outcome (α : Type) where
  /-- It gives something, and the next token is at this position. -/
  | gives (a : α) (position : Nat)
  /-- It gives an error at this position. -/
  | fails (error : CompileError) (position : Nat)
  /-- One of its loops has taken all its rounds, and would go on. -/
  | cutOff

namespace Outcome

variable {α β : Type}

/-- Goes on behind what was said. -/
def andThen : Outcome α → (α → Nat → Outcome β) → Outcome β
  | gives a q, f => f a q
  | fails e q, _ => fails e q
  | cutOff, _ => cutOff

/-- The outcome of something that started at `p`: it ended, between its start and the end of the input, and what it
gives, or its error, is as stated. -/
def Meets (E : Scope) (p : Nat) (Q : α → Nat → Prop) (F : CompileError → Nat → Prop) : Outcome α → Prop
  | gives a q => p ≤ q ∧ q ≤ E.last ∧ Q a q
  | fails e q => p ≤ q ∧ q ≤ E.last ∧ F e q
  | cutOff => False

end Outcome

/-- A production, started at some position. -/
def Production (α : Type) := Scope → Nat → Outcome α

instance : Monad Production where
  pure a := fun _ p => .gives a p
  bind m f := fun E p => (m E p).andThen fun a q => f a E q

/-- What a production does when it starts at `p`. -/
def Production.Meets {α : Type} (m : Production α) (E : Scope) (p : Nat) (Q : α → Nat → Prop)
    (F : CompileError → Nat → Prop) : Prop :=
  (m E p).Meets E p Q F

/-! ### Single tokens -/

variable {α β σ : Type}

/-- The kind of the next token. -/
def peek : Production (Option TokenKind) := fun E p => .gives (E.kind? p) p

/-- The stretch of the next token. -/
def place : Production Span := fun E p => .gives (E.span p) p

/-- Goes past the next token, and stays at the end of the input; gives the token's stretch. -/
def advance : Production Span := fun E p => .gives (E.span p) (if p < E.last then p + 1 else p)

/-- The caps on the input. -/
def inputLimits : Production InputLimits := fun E p => .gives E.limits p

/-- Stops with an error. -/
def fail (e : CompileError) : Production α := fun _ p => .fails e p

/-- Stops because no round is left. -/
def cut : Production α := fun _ _ => .cutOff

/-- The next token is not what the grammar asks for. -/
def unexpected (expected : Expectation) : Production α := do
  fail (.unexpected expected (← peek) (← place).location)

/-- Takes a token that can be read so; gives also its stretch. -/
def expect (expected : Expectation) (read : TokenKind → Option α) : Production (α × Span) := do
  match (← peek).bind read with
  | some a => return (a, ← advance)
  | none => unexpected expected

/-- There has to be room for one more. -/
def room (what : Quantity) (limit held : Nat) : Production Unit :=
  if limit ≤ held then fail (.tooLarge what limit) else pure ()

/-- Reads a name. -/
def ident? : TokenKind → Option String
  | .ident name => some name
  | _ => none

/-- Reads a number. -/
def number? : TokenKind → Option Float
  | .number value => some value
  | _ => none

/-- Reads a given mark. -/
def mark? (mark kind : TokenKind) : Option Unit := if kind = mark then some () else none

/-! ### Loops -/

/-- A loop: as long as the next token is one to go on at, a further round. -/
structure Loop (σ : Type) where
  goesOn : Option TokenKind → Bool
  round : σ → Production σ

/-- The loop, cut off if it wants more than `n` rounds. -/
def Loop.upTo (l : Loop σ) : Nat → σ → Production σ
  | 0, s => do
    if l.goesOn (← peek) then cut else return s
  | n + 1, s => do
    if l.goesOn (← peek) then l.upTo n (← l.round s) else return s

/-- The loop, with the rounds that it may take. -/
def Loop.run (l : Loop σ) (s : σ) : Production σ := fun E p => l.upTo E.rounds s E p

/-- Inside a block, before an item: at neither the closing brace nor the end of the input. -/
def atItem : Option TokenKind → Bool
  | some .closeBrace | none => false
  | _ => true

/-- Behind a clause, before a further one. -/
def atComma : Option TokenKind → Bool
  | some .comma => true
  | _ => false

/-- Behind the name of a bone, before `reset`, in any case of the letters. -/
def atReset : Option TokenKind → Bool
  | some (.ident word) => sameWord "reset" word
  | _ => false

/-! ### Poses -/

/-- `clause := ACTION DIRECTION NUMBER` -/
def clause (bone : Bone) (first : Bool) : Production Clause := do
  let expected : Expectation := if first then .firstAction bone else .nextAction
  let (word, span) ← expect expected ident?
  match Action.ofWord? word with
  | none => fail (.unexpected expected (some (.ident word)) span.location)
  | some action =>
    let (word, place) ← expect (.direction action) ident?
    match (Direction.ofWord? word).filter fun d => (action.axis? d).isSome with
    | none => fail (.unexpected (.direction action) (some (.ident word)) place.location)
    | some direction =>
      let (magnitude, _) ← expect (.amount action direction) number?
      return ⟨action, direction, magnitude, span⟩

/-- A clause behind another one; the next token is taken for the comma. -/
def nextClause (bone : Bone) : Production Clause := do
  let _ ← advance
  clause bone false

/-- `(',' clause)*` -/
def clauses (bone : Bone) : Loop (Array Clause) where
  goesOn := atComma
  round done := return done.push (← nextClause bone)

/-- `'reset' | clause (',' clause)*` -/
def deed (bone : Bone) : Production Deed := do
  if atReset (← peek) then
    let _ ← advance
    return .reset
  else
    let first ← clause bone true
    let done ← (clauses bone).run #[first]
    return .actions done.toList

/-- `statement := BONE ('reset' | clause (',' clause)*) ';'` -/
def statement : Production Statement := do
  let (name, span) ← expect .boneName ident?
  match Bone.ofName? name with
  | none => fail (.unknownName .bone name span.location)
  | some bone =>
    let deed ← deed bone
    let _ ← expect .statementEnd (mark? .semicolon)
    return ⟨bone, deed, span⟩

/-- `statement*` -/
def statements : Loop (Array Statement) where
  goesOn := atItem
  round done := return done.push (← statement)

/-- A pose behind its keyword: `NAME '{' statement* '}'`. -/
def poseBehind (keyword : Span) : Production Pose := do
  let (name, _) ← expect .poseName ident?
  let _ ← expect (.openPose name) (mark? .openBrace)
  let done ← statements.run #[]
  let _ ← expect (.closePose name) (mark? .closeBrace)
  return ⟨name, done.toList, keyword⟩

/-- A pose; the next token is taken for its keyword. -/
def pose : Production Pose := do poseBehind (← advance)

/-! ### Animations and `main` -/

/-- `keyframe := NUMBER ':' NAME ';'` -/
def keyframe : Production Keyframe := do
  let (time, span) ← expect .keyframeTime number?
  let _ ← expect .colon (mark? .colon)
  let (pose, _) ← expect .keyframePose ident?
  let _ ← expect .keyframeEnd (mark? .semicolon)
  return ⟨time, pose, span⟩

/-- `keyframe*`, as many as an animation may have. -/
def keyframes (animation : String) : Loop (Array Keyframe) where
  goesOn := atItem
  round done := do
    let k ← keyframe
    room (.keyframes animation) (← inputLimits).keyframesPerAnimation done.size
    return done.push k

/-- An animation behind its keyword: `NAME '{' keyframe* '}'`. -/
def animationBehind (keyword : Span) : Production Animation := do
  let (name, _) ← expect .animationName ident?
  let _ ← expect (.openAnimation name) (mark? .openBrace)
  let done ← (keyframes name).run #[]
  let _ ← expect (.closeAnimation name) (mark? .closeBrace)
  return ⟨name, done.toList, keyword⟩

/-- An animation; the next token is taken for its keyword. -/
def animation : Production Animation := do animationBehind (← advance)

/-- `NAME ';'` -/
def entry : Production PlayEntry := do
  let (name, span) ← expect .entry ident?
  let _ ← expect .entryEnd (mark? .semicolon)
  return ⟨name, span⟩

/-- `(NAME ';')*`, as many as `main` may have. -/
def entries : Loop (Array PlayEntry) where
  goesOn := atItem
  round done := do
    let e ← entry
    room .playEntries (← inputLimits).playEntries done.size
    return done.push e

/-- The `main` block behind its word: `'{' (NAME ';')* '}'`. -/
def mainBehind : Production (List PlayEntry) := do
  let _ ← expect .openMain (mark? .openBrace)
  let done ← entries.run #[]
  let _ ← expect .closeMain (mark? .closeBrace)
  return done.toList

/-- The `main` block; the next token is taken for its word. -/
def main : Production (List PlayEntry) := do
  let _ ← advance
  mainBehind

/-! ### Documents -/

/-- Takes in a definition, which makes these blocks: there has to be room for it, and its name has to be new. -/
def define (kind : NameKind) (what : Quantity) (limit : Nat) (held : Array (String × α)) (name : String) (span : Span)
    (b : Blocks) : Production Blocks := do
  room what limit held.size
  if held.any (·.1 = name) then fail (.duplicateName kind name span.location) else return b

/-- Takes in a pose. -/
def addPose (b : Blocks) (p : Pose) : Production Blocks := do
  define .pose .poses (← inputLimits).poses b.poses p.name p.span { b with poses := b.poses.push (p.name, p) }

/-- Takes in an animation. -/
def addAnimation (b : Blocks) (a : Animation) : Production Blocks := do
  define .animation .animations (← inputLimits).animations b.animations a.name a.span
    { b with animations := b.animations.push (a.name, a) }

/-- One more block; the next token says of which kind it is. -/
def block (b : Blocks) : Production Blocks := do
  let span ← place
  match ← peek with
  -- at the end of the input no block is begun
  | none => return b
  | some (.keyword word) =>
    if word = "pose" then addPose b (← pose)
    else if word = "animation" then addAnimation b (← animation)
    else fail (.unknownBlock (.keyword word) span.location)
  | some (.ident name) =>
    if name = "main" then
      if b.main.isSome then fail (.duplicateName .mainBlock name span.location)
      else return { b with main := some (← main) }
    else fail (.unknownBlock (.ident name) span.location)
  | some kind => fail (.unknownBlock kind span.location)

/-- `block*` -/
def blocks : Loop Blocks where
  goesOn := Option.isSome
  round := block

/-- `document := block*` -/
def document : Production Document := do return (← blocks.run {}).finish

/-! ### What productions do -/

variable {E : Scope} {p : Nat} {m : Production α} {Q Q' : α → Nat → Prop} {F F' : CompileError → Nat → Prop}

theorem meets_pure {a : α} (hp : p ≤ E.last) (h : Q a p) : (pure a : Production α).Meets E p Q F :=
  ⟨Nat.le_refl p, hp, h⟩

theorem meets_fail {e : CompileError} (hp : p ≤ E.last) (h : F e p) : (fail e : Production α).Meets E p Q F :=
  ⟨Nat.le_refl p, hp, h⟩

namespace Production.Meets

theorem mono (h : m.Meets E p Q F) (hgives : ∀ a q, p ≤ q → q ≤ E.last → Q a q → Q' a q)
    (hfails : ∀ e q, F e q → F' e q) : m.Meets E p Q' F' := by
  unfold Meets at h ⊢
  cases hm : m E p with
  | gives a q =>
    rw [hm] at h
    obtain ⟨hle, hlast, hQ⟩ := h
    exact ⟨hle, hlast, hgives a q hle hlast hQ⟩
  | fails e q =>
    rw [hm] at h
    obtain ⟨hle, hlast, hF⟩ := h
    exact ⟨hle, hlast, hfails e q hF⟩
  | cutOff =>
    rw [hm] at h
    exact h

/-- What ends between a later start and the end of the input does so for an earlier start. -/
theorem of_le {q : Nat} (hpq : p ≤ q) (h : m.Meets E q Q F) : (m E q).Meets E p Q F := by
  unfold Meets at h
  cases hm : m E q with
  | gives a r =>
    rw [hm] at h
    exact ⟨Nat.le_trans hpq h.1, h.2⟩
  | fails e r =>
    rw [hm] at h
    exact ⟨Nat.le_trans hpq h.1, h.2⟩
  | cutOff =>
    rw [hm] at h
    exact h

/-- The second production starts where the first one ends. -/
theorem bind {f : α → Production β} {R : β → Nat → Prop} (h : m.Meets E p Q F)
    (hf : ∀ a q, p ≤ q → q ≤ E.last → Q a q → (f a).Meets E q R F) : (m >>= f).Meets E p R F := by
  change ((m E p).andThen fun a q => f a E q).Meets E p R F
  unfold Meets at h
  cases hm : m E p with
  | gives a q =>
    rw [hm] at h
    obtain ⟨hle, hlast, hQ⟩ := h
    exact (hf a q hle hlast hQ).of_le hle
  | fails e q =>
    rw [hm] at h
    exact h
  | cutOff =>
    rw [hm] at h
    exact h

end Production.Meets

theorem meets_peek {f : Option TokenKind → Production β} {R : β → Nat → Prop} (h : (f (E.kind? p)).Meets E p R F) :
    (peek >>= f).Meets E p R F := h

theorem meets_place {f : Span → Production β} {R : β → Nat → Prop} (h : (f (E.span p)).Meets E p R F) :
    (place >>= f).Meets E p R F := h

theorem meets_inputLimits {f : InputLimits → Production β} {R : β → Nat → Prop} (h : (f E.limits).Meets E p R F) :
    (inputLimits >>= f).Meets E p R F := h

theorem meets_advance {kind : TokenKind} (hkind : E.kind? p = some kind) {Q : Span → Nat → Prop}
    (h : Q (E.span p) (p + 1)) : advance.Meets E p Q F := by
  have hlt := E.lt_last hkind
  unfold Production.Meets advance
  rw [if_pos hlt]
  exact ⟨Nat.le_succ p, hlt, h⟩

theorem meets_advance_or_stay (hp : p ≤ E.last) : advance.Meets E p (fun _ _ => True) F := by
  unfold Production.Meets advance
  split
  next h => exact ⟨Nat.le_succ p, h, trivial⟩
  next => exact ⟨Nat.le_refl p, hp, trivial⟩

theorem meets_room {what : Quantity} {limit held : Nat} {Q : Unit → Nat → Prop} (hp : p ≤ E.last)
    (hfull : limit ≤ held → F (.tooLarge what limit) p) (hfree : ¬ limit ≤ held → Q () p) :
    (room what limit held).Meets E p Q F := by
  unfold room
  split
  next h => exact meets_fail hp (hfull h)
  next h => exact meets_pure hp (hfree h)

/-- A token that can be read is taken; nothing else is, the end of the input included. -/
theorem meets_expect {expected : Expectation} {read : TokenKind → Option α} {Q : α × Span → Nat → Prop}
    (hp : p ≤ E.last) (hread : ∀ kind a, E.kind? p = some kind → read kind = some a → Q (a, E.span p) (p + 1))
    (hother : (E.kind? p).bind read = none → F (.unexpected expected (E.kind? p) (E.span p).location) p) :
    (expect expected read).Meets E p Q F := by
  refine meets_peek ?_
  cases ha : (E.kind? p).bind read with
  | some a =>
    obtain ⟨kind, hkind, ha⟩ := Option.bind_eq_some_iff.mp ha
    refine (meets_advance (Q := fun s q => Q (a, s) q) hkind (hread kind a hkind ha)).bind ?_
    intro s q _ hq hQ
    exact meets_pure hq hQ
  | none => exact meets_fail hp (hother ha)

/-- **Loops.** Suppose that the loop does not go on at the end of the input, and that each round goes forward and keeps
an invariant. Then the loop ends within as many rounds as tokens are left, at a token where it does not go on, with the
invariant. -/
theorem Loop.meets_run {l : Loop σ} (hend : l.goesOn none = false) {I : σ → Nat → Prop} {s : σ}
    (hround : ∀ s q, p ≤ q → q ≤ E.last → l.goesOn (E.kind? q) = true → I s q →
      (l.round s).Meets E q (fun s' q' => q < q' ∧ I s' q') F)
    (hp : p ≤ E.last) (hrounds : E.last ≤ p + E.rounds) (hI : I s p) :
    (l.run s).Meets E p (fun s' q => I s' q ∧ l.goesOn (E.kind? q) = false) F := by
  have hupTo (n : Nat) (s : σ) (q : Nat) (hpq : p ≤ q) (hq : q ≤ E.last) (hn : E.last ≤ q + n) (hI : I s q) :
      (l.upTo n s).Meets E q (fun s' q => I s' q ∧ l.goesOn (E.kind? q) = false) F := by
    -- each round goes forward by one token at least, so there is always one round left for each token
    induction n generalizing s q with
    | zero =>
      have hnone : l.goesOn (E.kind? q) = false := by
        rw [Scope.kind?_eq_none_iff.mpr (show E.last ≤ q from hn), hend]
      refine meets_peek ?_
      rw [hnone]
      exact meets_pure hq ⟨hI, hnone⟩
    | succ n ih =>
      refine meets_peek ?_
      cases hgoes : l.goesOn (E.kind? q) with
      | false => exact meets_pure hq ⟨hI, hgoes⟩
      | true =>
        refine (hround s q hpq hq hgoes hI).bind ?_
        rintro s' q' - hq' ⟨hlt, hI'⟩
        exact ih s' q' (Nat.le_trans hpq (Nat.le_of_lt hlt)) hq' (by omega) hI'
  exact hupTo E.rounds s p (Nat.le_refl p) hp hrounds hI

end PoseLang.Descent
