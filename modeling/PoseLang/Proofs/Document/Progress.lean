import PoseLang.Proofs.Document.Descent

/-!
# Reading goes forward

The reader takes one token at a time and so comes to an end. Here the same is shown of the productions and their loops,
which look ahead and may stay where they are: they read what the reader reads, and each round of a loop goes forward.

Each production is compared with the reader at the stage where the production starts: as long as it gives no error, the
reader is at the stage that belongs to what was given, and the error that it gives is the reader's, with the same tokens
left. A single token is compared by a table of what the stages ask for (`Asks`).

What is proved:

* one token is taken or refused as by the reader (`meets_asked`);
* a round of each loop goes forward (`meets_nextClause`, `meets_statement`, `meets_keyframes_round`,
  `meets_entries_round`, `meets_block`), and so the loops end (`Loop.progresses`);
* a block ends behind a closing brace, or in an error (`meets_items`, `exists_fails`);
* the productions give the reader's answer (`meets_document`), and all this holds of them at every position
  (`loops_progress`).
-/

namespace PoseLang.Descent

variable {E : Scope} {p : Nat} {b : Blocks}

/-! ### The reader at a position -/

namespace Scope

/-- What the reader answers from a position on, and the tokens that it leaves. -/
def answer (E : Scope) (r : Reader) (p : Nat) : Except CompileError Document × List Token :=
  r.run E.limits E.tokens.stop (E.tokens.list.drop p)

/-- The answer that is an error at a position. -/
def wrong (E : Scope) (e : CompileError) (p : Nat) : Except CompileError Document × List Token :=
  (.error e, E.tokens.list.drop p)

/-- The answer after a step at a position. -/
def behind (E : Scope) (p : Nat) : Step → Except CompileError Document × List Token
  | .next r => E.answer r (p + 1)
  | .refuse e => E.wrong e p
  | .reject e => E.wrong e (p + 1)

theorem answer_of_some {r : Reader} {kind : TokenKind} (h : E.kind? p = some kind) :
    E.answer r p = E.behind p (r.step E.limits ⟨kind, E.span p⟩) := by
  obtain ⟨hlt, hget⟩ := List.getElem?_eq_some_iff.mp (getElem?_of_kind? h)
  have hdrop : E.tokens.list.drop p = ⟨kind, E.span p⟩ :: E.tokens.list.drop (p + 1) := by
    rw [← hget]
    exact List.drop_eq_getElem_cons hlt
  rw [answer, hdrop, Reader.run]
  cases r.step E.limits ⟨kind, E.span p⟩ with
  | next r' => rfl
  | refuse e => rw [behind, wrong, hdrop]
  | reject e => rfl

/-- At the end of the input an open block is an error. -/
theorem answer_of_none {s : Stage} (h : E.kind? p = none) :
    E.answer ⟨b, some s⟩ p = E.wrong (.unexpected s.missing none (E.span p).location) p := by
  have hlast : E.tokens.list.length ≤ p := kind?_eq_none_iff.mp h
  rw [answer, wrong, List.drop_of_length_le hlast, span, List.getElem?_eq_none_iff.mpr hlast]
  rfl

end Scope

/-- What a stage asks for at the next token: tokens of one kind. Between items it is that of an item, or the closing
mark where no item can be. -/
inductive Asks (next : Option TokenKind) : {α : Type} → Stage → Expectation → (α → TokenKind) → Prop
  | poseName {keyword : Span} : Asks next (.poseName keyword) .poseName TokenKind.ident
  | poseOpen {keyword : Span} {name : String} :
      Asks next (.poseOpen keyword name) (.openPose name) fun _ : Unit => .openBrace
  | statement {P : PoseDraft} : atItem next = true → Asks next (.poseBody P) .boneName TokenKind.ident
  | poseClose {P : PoseDraft} : atItem next = false →
      Asks next (.poseBody P) (.closePose P.name) fun _ : Unit => .closeBrace
  | action {P : PoseDraft} {d : StatementDraft} :
      Asks next (.action P d) (if d.done.isEmpty then .firstAction d.bone else .nextAction) TokenKind.ident
  | direction {P : PoseDraft} {d : StatementDraft} {a : Action} {word : Span} :
      Asks next (.direction P d a word) (.direction a) TokenKind.ident
  | amount {P : PoseDraft} {d : StatementDraft} {a : Action} {w : Direction} {word : Span} :
      Asks next (.amount P d a w word) (.amount a w) TokenKind.number
  | clausesEnd {P : PoseDraft} {d : StatementDraft} : atComma next = false →
      Asks next (.clauseEnd P d) .statementEnd fun _ : Unit => .semicolon
  | resetEnd {P : PoseDraft} {d : StatementDraft} : Asks next (.resetEnd P d) .statementEnd fun _ : Unit => .semicolon
  | animationName {keyword : Span} : Asks next (.animationName keyword) .animationName TokenKind.ident
  | animationOpen {keyword : Span} {name : String} :
      Asks next (.animationOpen keyword name) (.openAnimation name) fun _ : Unit => .openBrace
  | keyframe {A : AnimationDraft} : atItem next = true → Asks next (.animationBody A) .keyframeTime TokenKind.number
  | animationClose {A : AnimationDraft} : atItem next = false →
      Asks next (.animationBody A) (.closeAnimation A.name) fun _ : Unit => .closeBrace
  | colon {A : AnimationDraft} {time : Float} {number : Span} :
      Asks next (.colon A time number) .colon fun _ : Unit => .colon
  | keyframePose {A : AnimationDraft} {time : Float} {number : Span} :
      Asks next (.keyframePose A time number) .keyframePose TokenKind.ident
  | keyframeEnd {A : AnimationDraft} {k : Keyframe} :
      Asks next (.keyframeEnd A k) .keyframeEnd fun _ : Unit => .semicolon
  | mainOpen : Asks next .mainOpen .openMain fun _ : Unit => .openBrace
  | entry {done : Array PlayEntry} : atItem next = true → Asks next (.mainBody done) .entry TokenKind.ident
  | mainClose {done : Array PlayEntry} : atItem next = false →
      Asks next (.mainBody done) .closeMain fun _ : Unit => .closeBrace
  | entryEnd {done : Array PlayEntry} {e : PlayEntry} :
      Asks next (.entryEnd done e) .entryEnd fun _ : Unit => .semicolon

namespace Asks

variable {α : Type} {s : Stage} {expected : Expectation} {token : α → TokenKind}

theorem missing (h : Asks none s expected token) : s.missing = expected := by
  cases h <;> first | rfl | contradiction

theorem refuse {limits : InputLimits} {kind : TokenKind} {span : Span} (h : Asks (some kind) s expected token)
    (hne : ∀ a, kind ≠ token a) :
    b.continueBlock limits s ⟨kind, span⟩ = .refuse (.unexpected expected (some kind) span.location) := by
  cases h <;> cases kind <;> first | rfl | exact absurd rfl (hne _) | exact absurd rfl (hne ()) | contradiction

end Asks

theorem ident?_eq_some_iff {kind : TokenKind} {name : String} : ident? kind = some name ↔ kind = .ident name := by
  cases kind <;> simp [ident?]

theorem number?_eq_some_iff {kind : TokenKind} {value : Float} : number? kind = some value ↔ kind = .number value := by
  cases kind <;> simp [number?]

theorem mark?_eq_some_iff {mark kind : TokenKind} {u : Unit} : mark? mark kind = some u ↔ kind = mark := by
  simp [mark?]

variable {ans : Except CompileError Document × List Token}

/-- The production does what the reader does from the same position on. Its error is the reader's answer, and what it
gives is stated together with the stage that the reader has then. -/
abbrev Production.Follows {α : Type} (m : Production α) (E : Scope) (ans : Except CompileError Document × List Token)
    (p : Nat) (Q : α → Nat → Prop) : Prop :=
  m.Meets E p Q fun e q => ans = E.wrong e q

/-- A token that a stage asks for. If it is there, the reader has taken it as well, and the production goes on behind
it; else the reader too refuses the token, or misses it at the end of the input. -/
theorem meets_asked {α β : Type} {s : Stage} {expected : Expectation} {read : TokenKind → Option α}
    {token : α → TokenKind} {f : α × Span → Production β} {R : β → Nat → Prop}
    (hasks : Asks (E.kind? p) s expected token) (htoken : ∀ {kind a}, read kind = some a ↔ kind = token a)
    (hp : p ≤ E.last) (hans : ans = E.answer ⟨b, some s⟩ p)
    (hread : ∀ a, E.kind? p = some (token a) → p + 1 ≤ E.last →
      ans = E.behind p (b.continueBlock E.limits s ⟨token a, E.span p⟩) →
      (f (a, E.span p)).Follows E ans (p + 1) R) :
    (expect expected read >>= f).Follows E ans p R := by
  refine Production.Meets.bind (Q := fun x q => (f x).Follows E ans q R)
    (meets_expect hp ?_ ?_) fun _ _ _ _ h => h
  · intro kind a hkind ha
    obtain rfl := htoken.mp ha
    refine hread a hkind (E.lt_last hkind) ?_
    rw [hans, Scope.answer_of_some hkind]
    rfl
  · intro hnone
    cases hkind : E.kind? p with
    | none =>
      rw [hkind] at hasks
      rw [hans, Scope.answer_of_none hkind, hasks.missing]
    | some kind =>
      rw [hkind] at hasks
      have hne (a : α) : kind ≠ token a := by
        intro ha
        rw [hkind, Option.bind_some, htoken.mpr ha] at hnone
        cases hnone
      rw [hans, Scope.answer_of_some hkind, Reader.step, hasks.refuse hne]
      rfl

/-- A limit that is checked behind a token. -/
theorem meets_room_behind {β : Type} {what : Quantity} {limit held : Nat} {step : Step} {f : Unit → Production β}
    {R : β → Nat → Prop} (hp : p + 1 ≤ E.last)
    (hans : ans = E.behind p (if limit ≤ held then .reject (.tooLarge what limit) else step))
    (hf : ans = E.behind p step → (f ()).Follows E ans (p + 1) R) :
    (room what limit held >>= f).Follows E ans (p + 1) R := by
  refine (meets_room (Q := fun _ q => q = p + 1 ∧ ans = E.behind p step) hp ?_ ?_).bind ?_
  · intro hfull
    rw [if_pos hfull] at hans
    exact hans
  · intro hfree
    rw [if_neg hfree] at hans
    exact ⟨rfl, hans⟩
  · rintro _ _ - - ⟨rfl, hans⟩
    exact hf hans

/-! ### Statements -/

variable {P : PoseDraft} {d : StatementDraft}

theorem meets_clause (hp : p ≤ E.last) (hans : ans = E.answer ⟨b, some (.action P d)⟩ p)
    (hreset : d.done.isEmpty = true → atReset (E.kind? p) = false) :
    (clause d.bone d.done.isEmpty).Follows E ans p
      fun c q => p < q ∧ ans = E.answer ⟨b, some (.clauseEnd P (d.add c))⟩ q := by
  refine meets_asked .action ident?_eq_some_iff hp hans ?_
  intro word hkind hlast hans
  -- the reader took the word and looked it up in one step, the production does so in two
  have hnot : (d.done.isEmpty && sameWord "reset" word) = false := by
    cases hempty : d.done.isEmpty with
    | false => rfl
    | true => simpa [hkind, atReset] using hreset hempty
  unfold Blocks.continueBlock at hans
  dsimp only at hans ⊢
  rw [hnot, if_neg Bool.false_ne_true] at hans
  cases haction : Action.ofWord? word with
  | none =>
    rw [haction] at hans
    exact meets_fail hlast hans
  | some action =>
    rw [haction] at hans
    refine meets_asked .direction ident?_eq_some_iff hlast hans ?_
    intro word _ hlast hans
    unfold Blocks.continueBlock at hans
    dsimp only at hans ⊢
    cases hdirection : (Direction.ofWord? word).filter fun d => (action.axis? d).isSome with
    | none =>
      rw [hdirection] at hans
      exact meets_fail hlast hans
    | some direction =>
      rw [hdirection] at hans
      refine meets_asked .amount number?_eq_some_iff hlast hans ?_
      intro magnitude _ hlast hans
      exact meets_pure hlast ⟨by omega, hans⟩

theorem meets_nextClause (hdone : d.done.isEmpty = false) (hcomma : atComma (E.kind? p) = true)
    (hans : ans = E.answer ⟨b, some (.clauseEnd P d)⟩ p) :
    (nextClause d.bone).Follows E ans p fun c q => p < q ∧ ans = E.answer ⟨b, some (.clauseEnd P (d.add c))⟩ q := by
  have hkind : E.kind? p = some .comma := by
    unfold atComma at hcomma
    split at hcomma
    next h => exact h
    next => cases hcomma
  have hnext : ans = E.answer ⟨b, some (.action P d)⟩ (p + 1) := hans.trans (Scope.answer_of_some hkind)
  refine (meets_advance hkind (Q := fun _ q => q = p + 1) rfl).bind ?_
  rintro - q - hq rfl
  have hclause := meets_clause hq hnext (by simp [hdone])
  rw [hdone] at hclause
  refine hclause.mono ?_ fun _ _ h => h
  rintro c q - - ⟨hlt, hans⟩
  exact ⟨by omega, hans⟩

/-- What a statement does with its bone, up to the semicolon. -/
theorem meets_deed {bone : Bone} {word : Span} (hp : p ≤ E.last) (hrounds : E.last ≤ p + E.rounds)
    (hans : ans = E.answer ⟨b, some (.action P ⟨bone, word, #[]⟩)⟩ p) :
    (deed bone).Follows E ans p
      (fun x q => p < q ∧ ((x = .reset ∧ ans = E.answer ⟨b, some (.resetEnd P ⟨bone, word, #[]⟩)⟩ q) ∨
        ∃ done, x = .actions done.toList ∧ atComma (E.kind? q) = false ∧
          ans = E.answer ⟨b, some (.clauseEnd P ⟨bone, word, done⟩)⟩ q)) := by
  refine meets_peek ?_
  cases hreset : atReset (E.kind? p) with
  | true =>
    obtain ⟨w, hkind, hword⟩ : ∃ w, E.kind? p = some (.ident w) ∧ sameWord "reset" w = true := by
      unfold atReset at hreset
      split at hreset
      next w h => exact ⟨w, h, hreset⟩
      next => cases hreset
    have hnext : ans = E.answer ⟨b, some (.resetEnd P ⟨bone, word, #[]⟩)⟩ (p + 1) := by
      rw [hans, Scope.answer_of_some hkind, Reader.step]
      unfold Blocks.continueBlock
      dsimp only
      rw [hword]
      rfl
    refine (meets_advance hkind (Q := fun _ q => q = p + 1) rfl).bind ?_
    rintro - q - hq rfl
    exact meets_pure hq ⟨Nat.lt_succ_self p, .inl ⟨rfl, hnext⟩⟩
  | false =>
    refine (meets_clause (d := ⟨bone, word, #[]⟩) hp hans fun _ => hreset).bind ?_
    rintro c q - hq ⟨hlt, hans⟩
    -- the reader asks for a first clause as long as it has none, so the invariant says that there is one
    refine (Loop.meets_run (l := clauses bone) (I := fun done q => done.isEmpty = false ∧
      ans = E.answer ⟨b, some (.clauseEnd P ⟨bone, word, done⟩)⟩ q) rfl ?_ hq (by omega) ⟨rfl, hans⟩).bind ?_
    · rintro done q - - hcomma ⟨hdone, hans⟩
      refine (meets_nextClause (d := ⟨bone, word, done⟩) hdone hcomma hans).bind ?_
      rintro c q - hq ⟨hlt, hans⟩
      exact meets_pure hq ⟨hlt, by simp, hans⟩
    · rintro done q' hle hq' ⟨⟨-, hans⟩, hcomma⟩
      exact meets_pure hq' ⟨by omega, .inr ⟨done, rfl, hcomma, hans⟩⟩

/-- A statement, where one may stand. -/
theorem meets_statement (hp : p ≤ E.last) (hrounds : E.last ≤ p + E.rounds) (hitem : atItem (E.kind? p) = true)
    (hans : ans = E.answer ⟨b, some (.poseBody P)⟩ p) :
    statement.Follows E ans p fun s q => p < q ∧ ans = E.answer ⟨b, some (.poseBody (P.add s))⟩ q := by
  refine meets_asked (.statement hitem) ident?_eq_some_iff hp hans ?_
  intro name _ hlast hans
  unfold Blocks.continueBlock at hans
  dsimp only at hans ⊢
  cases hbone : Bone.ofName? name with
  | none =>
    rw [hbone] at hans
    exact meets_fail hlast hans
  | some bone =>
    rw [hbone] at hans
    refine (meets_deed hlast (by omega) hans).bind ?_
    rintro x q - hq ⟨hlt, ⟨rfl, hans⟩ | ⟨done, rfl, hcomma, hans⟩⟩
    · refine meets_asked .resetEnd mark?_eq_some_iff hq hans ?_
      intro _ _ hlast hans
      exact meets_pure hlast ⟨by omega, hans⟩
    · refine meets_asked (.clausesEnd hcomma) mark?_eq_some_iff hq hans ?_
      intro _ _ hlast hans
      exact meets_pure hlast ⟨by omega, hans⟩

/-- A round of the statements of a pose. -/
theorem meets_statements_round {keyword : Span} {name : String} {done : Array Statement} (hp : p ≤ E.last)
    (hrounds : E.last ≤ p + E.rounds) (hgoes : atItem (E.kind? p) = true)
    (hans : ans = E.answer ⟨b, some (.poseBody ⟨keyword, name, done⟩)⟩ p) :
    (statements.round done).Follows E ans p
      fun done' q => p < q ∧ ans = E.answer ⟨b, some (.poseBody ⟨keyword, name, done'⟩)⟩ q := by
  refine (meets_statement hp hrounds hgoes hans).bind ?_
  rintro s q - hq h
  exact meets_pure hq h

/-! ### Keyframes and entries -/

/-- A round of the keyframes of an animation. -/
theorem meets_keyframes_round {keyword : Span} {name : String} {done : Array Keyframe} (hp : p ≤ E.last)
    (hgoes : atItem (E.kind? p) = true) (hans : ans = E.answer ⟨b, some (.animationBody ⟨keyword, name, done⟩)⟩ p) :
    ((keyframes name).round done).Follows E ans p
      fun done' q => p < q ∧ ans = E.answer ⟨b, some (.animationBody ⟨keyword, name, done'⟩)⟩ q := by
  have hkeyframe : keyframe.Follows E ans p
      fun k q => q = p + 4 ∧ ans = E.behind (p + 3) (b.addKeyframe E.limits ⟨keyword, name, done⟩ k) := by
    refine meets_asked (.keyframe hgoes) number?_eq_some_iff hp hans ?_
    intro time _ hlast hans
    refine meets_asked .colon mark?_eq_some_iff hlast hans ?_
    intro _ _ hlast hans
    refine meets_asked .keyframePose ident?_eq_some_iff hlast hans ?_
    intro pose _ hlast hans
    refine meets_asked .keyframeEnd mark?_eq_some_iff hlast hans ?_
    intro _ _ hlast hans
    exact meets_pure hlast ⟨rfl, hans⟩
  refine hkeyframe.bind ?_
  rintro k q - hq ⟨rfl, hans⟩
  refine meets_inputLimits (meets_room_behind hq hans ?_)
  intro hans
  exact meets_pure hq ⟨by omega, hans⟩

/-- A round of the entries of `main`. -/
theorem meets_entries_round {done : Array PlayEntry} (hp : p ≤ E.last) (hgoes : atItem (E.kind? p) = true)
    (hans : ans = E.answer ⟨b, some (.mainBody done)⟩ p) :
    (entries.round done).Follows E ans p fun done' q => p < q ∧ ans = E.answer ⟨b, some (.mainBody done')⟩ q := by
  have hentry : entry.Follows E ans p fun x q => q = p + 2 ∧ ans = E.behind (p + 1) (b.addEntry E.limits done x) := by
    refine meets_asked (.entry hgoes) ident?_eq_some_iff hp hans ?_
    intro name _ hlast hans
    refine meets_asked .entryEnd mark?_eq_some_iff hlast hans ?_
    intro _ _ hlast hans
    exact meets_pure hlast ⟨rfl, hans⟩
  refine hentry.bind ?_
  rintro x q - hq ⟨rfl, hans⟩
  refine meets_inputLimits (meets_room_behind hq hans ?_)
  intro hans
  exact meets_pure hq ⟨by omega, hans⟩

/-! ### Blocks -/

/-- What started at `p` ended right behind a closing brace, which had the reader take this step. -/
def Scope.Closes (E : Scope) (ans : Except CompileError Document × List Token) (p : Nat) (step : Step) (q : Nat) :
    Prop :=
  ∃ r, q = r + 1 ∧ p ≤ r ∧ E.kind? r = some .closeBrace ∧ ans = E.behind r step

theorem Scope.Closes.of_le {p' q : Nat} {step : Step} (h : E.Closes ans p' step q) (hle : p ≤ p') :
    E.Closes ans p step q := by
  obtain ⟨r, rfl, hr, hkind, hans⟩ := h
  exact ⟨r, rfl, Nat.le_trans hle hr, hkind, hans⟩

/-- The items of a block, if each is read as the reader reads it, and the closing brace. -/
theorem meets_items {α β : Type} {l : Loop (Array α)} (hl : l.goesOn = atItem) (body : Array α → Stage)
    (close : Array α → Step) {missing : Expectation} {f : Array α → β}
    (hbody : ∀ done span, b.continueBlock E.limits (body done) ⟨.closeBrace, span⟩ = close done)
    (hclose : ∀ done next, atItem next = false → Asks next (body done) missing fun _ : Unit => .closeBrace)
    (hp : p ≤ E.last) (hrounds : E.last ≤ p + E.rounds)
    (hround : ∀ done q, q ≤ E.last → E.last ≤ q + E.rounds → atItem (E.kind? q) = true →
      ans = E.answer ⟨b, some (body done)⟩ q →
      (l.round done).Follows E ans q (fun done' q' => q < q' ∧ ans = E.answer ⟨b, some (body done')⟩ q'))
    (hans : ans = E.answer ⟨b, some (body #[])⟩ p) :
    (do
      let done ← l.run #[]
      let _ ← expect missing (mark? .closeBrace)
      return f done : Production β).Follows E ans p fun x q => ∃ done, x = f done ∧ E.Closes ans p (close done) q := by
  refine (Loop.meets_run (I := fun done q => ans = E.answer ⟨b, some (body done)⟩ q) (by rw [hl]; rfl) ?_ hp hrounds
    hans).bind ?_
  · intro done q hle hq hgoes hans
    rw [hl] at hgoes
    exact hround done q hq (by omega) hgoes hans
  · rintro done r hle hr ⟨hans, hgoes⟩
    rw [hl] at hgoes
    refine meets_asked (hclose done _ hgoes) mark?_eq_some_iff hr hans ?_
    intro _ hkind hlast hans
    rw [hbody] at hans
    exact meets_pure hlast ⟨done, rfl, r, rfl, hle, hkind, hans⟩

/-- A pose behind its keyword. -/
theorem meets_poseBehind {keyword : Span} (hp : p ≤ E.last) (hrounds : E.last ≤ p + E.rounds)
    (hans : ans = E.answer ⟨b, some (.poseName keyword)⟩ p) :
    (poseBehind keyword).Follows E ans p fun x q => E.Closes ans p (b.addPose E.limits x) q := by
  refine meets_asked .poseName ident?_eq_some_iff hp hans ?_
  intro name _ hlast hans
  refine meets_asked .poseOpen mark?_eq_some_iff hlast hans ?_
  intro _ _ hlast hans
  refine (meets_items rfl (fun done => .poseBody ⟨keyword, name, done⟩)
    (fun done => b.addPose E.limits ⟨name, done.toList, keyword⟩) (fun _ _ => rfl) (fun _ _ => .poseClose) hlast
    (by omega) (fun _ _ => meets_statements_round) hans).mono ?_ fun _ _ h => h
  rintro _ q - - ⟨done, rfl, hcloses⟩
  exact hcloses.of_le (by omega)

/-- An animation behind its keyword. -/
theorem meets_animationBehind {keyword : Span} (hp : p ≤ E.last) (hrounds : E.last ≤ p + E.rounds)
    (hans : ans = E.answer ⟨b, some (.animationName keyword)⟩ p) :
    (animationBehind keyword).Follows E ans p fun x q => E.Closes ans p (b.addAnimation E.limits x) q := by
  refine meets_asked .animationName ident?_eq_some_iff hp hans ?_
  intro name _ hlast hans
  refine meets_asked .animationOpen mark?_eq_some_iff hlast hans ?_
  intro _ _ hlast hans
  refine (meets_items rfl (fun done => .animationBody ⟨keyword, name, done⟩)
    (fun done => b.addAnimation E.limits ⟨name, done.toList, keyword⟩) (fun _ _ => rfl) (fun _ _ => .animationClose)
    hlast (by omega) (fun _ _ hq _ => meets_keyframes_round hq) hans).mono ?_ fun _ _ h => h
  rintro _ q - - ⟨done, rfl, hcloses⟩
  exact hcloses.of_le (by omega)

/-- The `main` block behind its word. -/
theorem meets_mainBehind (hp : p ≤ E.last) (hrounds : E.last ≤ p + E.rounds)
    (hans : ans = E.answer ⟨b, some .mainOpen⟩ p) :
    mainBehind.Follows E ans p fun x q => E.Closes ans p (b.addMain x) q := by
  refine meets_asked .mainOpen mark?_eq_some_iff hp hans ?_
  intro _ _ hlast hans
  refine (meets_items rfl .mainBody (fun done => b.addMain done.toList) (fun _ _ => rfl) (fun _ _ => .mainClose) hlast
    (by omega) (fun _ _ hq _ => meets_entries_round hq) hans).mono ?_ fun _ _ h => h
  rintro _ q - - ⟨done, rfl, hcloses⟩
  exact hcloses.of_le (by omega)

/-! ### Documents -/

theorem meets_define {α : Type} {kind : NameKind} {what : Quantity} {limit : Nat} {held : Array (String × α)}
    {name : String} {span : Span} {b' : Blocks} (hp : p + 1 ≤ E.last)
    (hans : ans = E.behind p (if limit ≤ held.size then .reject (.tooLarge what limit)
      else if held.any (·.1 = name) then .reject (.duplicateName kind name span.location) else .next ⟨b', none⟩)) :
    (define kind what limit held name span b').Follows E ans (p + 1) fun b' q => ans = E.answer ⟨b', none⟩ q := by
  refine meets_room_behind hp hans ?_
  intro hans
  split at hans
  next hname =>
    rw [if_pos hname]
    exact meets_fail hp hans
  next hname =>
    rw [if_neg hname]
    exact meets_pure hp hans

/-- A block behind its first token: it is read up to its closing brace, and taken in. -/
theorem meets_taken {α : Type} {kind : TokenKind} {f : Span → Production α} {g : α → Production Blocks}
    {step : α → Step} (hkind : E.kind? p = some kind)
    (hf : (f (E.span p)).Follows E ans (p + 1) (fun x q => E.Closes ans (p + 1) (step x) q))
    (hg : ∀ x r, r + 1 ≤ E.last → ans = E.behind r (step x) →
      (g x).Follows E ans (r + 1) (fun b' q => ans = E.answer ⟨b', none⟩ q)) :
    (advance >>= f >>= g).Follows E ans p fun b' q => p < q ∧ ans = E.answer ⟨b', none⟩ q := by
  refine Production.Meets.bind (Q := fun x q => E.Closes ans (p + 1) (step x) q) ?_ ?_
  · refine (meets_advance hkind (Q := fun s q => s = E.span p ∧ q = p + 1) ⟨rfl, rfl⟩).bind ?_
    rintro _ _ - - ⟨rfl, rfl⟩
    exact hf
  · rintro x _ - hq ⟨r, rfl, hr, -, hans⟩
    refine (hg x r hq hans).mono ?_ fun _ _ h => h
    intro b' q hle _ hans
    exact ⟨by omega, hans⟩

/-- A round of the blocks. -/
theorem meets_block (hrounds : E.last ≤ p + E.rounds) (hgoes : (E.kind? p).isSome = true)
    (hans : ans = E.answer ⟨b, none⟩ p) :
    (block b).Follows E ans p fun b' q => p < q ∧ ans = E.answer ⟨b', none⟩ q := by
  obtain ⟨kind, hkind⟩ := Option.isSome_iff_exists.mp hgoes
  have hlast := E.lt_last hkind
  have hp : p ≤ E.last := Nat.le_of_lt hlast
  have hstep : ans = E.behind p (b.openBlock ⟨kind, E.span p⟩) := hans.trans (Scope.answer_of_some hkind)
  refine meets_place (meets_peek ?_)
  rw [hkind]
  cases kind with
  | keyword word =>
    simp only [Blocks.openBlock] at hstep
    dsimp only
    split at hstep
    next hword =>
      rw [if_pos hword]
      refine meets_taken hkind (meets_poseBehind hlast (by omega) hstep) ?_
      intro x r hr hans
      exact meets_inputLimits (meets_define hr hans)
    next hword =>
      rw [if_neg hword]
      split at hstep
      next hword =>
        rw [if_pos hword]
        refine meets_taken hkind (meets_animationBehind hlast (by omega) hstep) ?_
        intro x r hr hans
        exact meets_inputLimits (meets_define hr hans)
      next hword =>
        rw [if_neg hword]
        exact meets_fail hp hstep
  | ident name =>
    simp only [Blocks.openBlock] at hstep
    dsimp only
    split at hstep
    next hname =>
      rw [if_pos hname]
      split at hstep
      next hmain =>
        rw [if_pos hmain]
        exact meets_fail hp hstep
      next hmain =>
        rw [if_neg hmain]
        refine meets_taken hkind (meets_mainBehind hlast (by omega) hstep) ?_
        intro x r hr hans
        exact meets_pure hr hans
    next hname =>
      rw [if_neg hname]
      exact meets_fail hp hstep
  | _ => exact meets_fail hp hstep

/-- The productions give the reader's answer, and leave the tokens that it leaves. -/
theorem meets_document (hp : p ≤ E.last) (hrounds : E.last ≤ p + E.rounds) (hans : ans = E.answer {} p) :
    document.Follows E ans p fun D q => ans = (.ok D, E.tokens.list.drop q) := by
  refine (Loop.meets_run (l := blocks) (I := fun b q => ans = E.answer ⟨b, none⟩ q) rfl ?_ hp hrounds hans).bind ?_
  · intro b q _ _ hgoes hans
    exact meets_block (by omega) hgoes hans
  · rintro b q - hq ⟨hans, hnone⟩
    refine meets_pure hq ?_
    have hlast : E.last ≤ q := Scope.kind?_eq_none_iff.mp (by simpa [blocks] using hnone)
    rw [hans, Scope.answer, List.drop_of_length_le hlast]
    rfl

/-! ### Every loop, at every position -/

/-- What a loop does at a position. Each of its rounds gives an error or ends at a later position, not past the end of
the input; and the loop gives an error or ends, in the rounds that it may take, where it does not go on. -/
def Loop.Progresses {σ : Type} (l : Loop σ) (E : Scope) (p : Nat) : Prop :=
  ∀ s, (l.goesOn (E.kind? p) = true → (l.round s).Meets E p (fun _ q => p < q) fun _ _ => True) ∧
    (l.run s).Meets E p (fun _ q => l.goesOn (E.kind? q) = false) fun _ _ => True

theorem Loop.progresses {σ : Type} {l : Loop σ} (hend : l.goesOn none = false) (hp : p ≤ E.last)
    (hrounds : E.last ≤ p + E.rounds)
    (hround : ∀ s q, q ≤ E.last → E.last ≤ q + E.rounds → l.goesOn (E.kind? q) = true →
      (l.round s).Meets E q (fun _ q' => q < q') fun _ _ => True) : l.Progresses E p := by
  refine fun s => ⟨hround s p hp hrounds, ?_⟩
  refine (Loop.meets_run (I := fun _ _ => True) hend ?_ hp hrounds trivial).mono (fun _ _ _ _ h => h.2) fun _ _ h => h
  intro s q hle hq hgoes _
  exact (hround s q hq (by omega) hgoes).mono (fun _ _ _ _ h => ⟨h, trivial⟩) fun _ _ h => h

/-- What holds in comparison with the reader goes forward whatever the reader answers. -/
theorem Production.Meets.forward {α : Type} {m : Production α} {Q : α → Nat → Prop}
    {F : CompileError → Nat → Prop} (h : m.Meets E p (fun a q => p < q ∧ Q a q) F) :
    m.Meets E p (fun _ q => p < q) fun _ _ => True :=
  h.mono (fun _ _ _ _ h => h.1) fun _ _ _ => trivial

theorem blocks_progresses (hp : p ≤ E.last) (hrounds : E.last ≤ p + E.rounds) : blocks.Progresses E p := by
  refine Loop.progresses rfl hp hrounds fun b q _ hrounds hgoes => ?_
  exact (meets_block hrounds hgoes rfl).forward

theorem statements_progresses (hp : p ≤ E.last) (hrounds : E.last ≤ p + E.rounds) : statements.Progresses E p := by
  refine Loop.progresses rfl hp hrounds fun done q hq hrounds hgoes => ?_
  -- the name of the pose does not matter
  have hans : _ = E.answer ⟨{}, some (.poseBody ⟨default, "", done⟩)⟩ q := rfl
  exact (meets_statements_round hq hrounds hgoes hans).forward

theorem clauses_progresses (bone : Bone) (hp : p ≤ E.last) (hrounds : E.last ≤ p + E.rounds) :
    (clauses bone).Progresses E p := by
  refine Loop.progresses rfl hp hrounds fun done q hq _ hgoes => ?_
  -- nor do the clauses so far, as long as there is one for the reader
  let first : Clause := ⟨.bend, .forward, 0, default⟩
  have hans : _ = E.answer ⟨{}, some (.clauseEnd ⟨default, "", #[]⟩ ⟨bone, default, #[first]⟩)⟩ q := rfl
  refine (meets_nextClause rfl hgoes hans).forward.bind ?_
  exact fun _ _ _ hq hlt => meets_pure hq hlt

theorem keyframes_progresses (name : String) (hp : p ≤ E.last) (hrounds : E.last ≤ p + E.rounds) :
    (keyframes name).Progresses E p := by
  refine Loop.progresses rfl hp hrounds fun done q hq _ hgoes => ?_
  have hans : _ = E.answer ⟨{}, some (.animationBody ⟨default, name, done⟩)⟩ q := rfl
  exact (meets_keyframes_round hq hgoes hans).forward

theorem entries_progresses (hp : p ≤ E.last) (hrounds : E.last ≤ p + E.rounds) : entries.Progresses E p := by
  refine Loop.progresses rfl hp hrounds fun done q hq _ hgoes => ?_
  have hans : _ = E.answer ⟨{}, some (.mainBody done)⟩ q := rfl
  exact (meets_entries_round hq hgoes hans).forward

/-- A block, whatever its first token is, gives nothing without a closing brace. -/
theorem exists_fails {α : Type} {f : Span → Production α} {step : α → Step}
    (hf : ∀ s q, q ≤ E.last → E.last ≤ q + E.rounds → ∃ ans,
      (f s).Follows E ans q (fun x q' => E.Closes ans q (step x) q'))
    (hp : p ≤ E.last) (hrounds : E.last ≤ p + E.rounds) (hopen : ∀ r, p ≤ r → E.kind? r ≠ some .closeBrace) :
    ∃ e q, (advance >>= f) E p = .fails e q := by
  have hmeets : (advance >>= f).Meets E p (fun _ _ => False) fun _ _ => True := by
    -- at the end of the input the first token is the end itself, and what follows starts there again
    refine (meets_advance_or_stay hp).bind ?_
    intro s q hle hq _
    obtain ⟨ans, hans⟩ := hf s q hq (by omega)
    refine hans.mono ?_ fun _ _ _ => trivial
    rintro x _ - - ⟨r, -, hr, hkind, -⟩
    exact hopen r (by omega) hkind
  unfold Production.Meets at hmeets
  cases hm : (advance >>= f) E p with
  | gives a q =>
    rw [hm] at hmeets
    exact hmeets.2.2.elim
  | fails e q => exact ⟨e, q, rfl⟩
  | cutOff =>
    rw [hm] at hmeets
    exact hmeets.elim

/-- **Reading by productions goes forward and ends.** Take any tokens and limits, and start at any position up to the
end of the input, with as many rounds for each loop as tokens are left, or more. No token is taken past the end of the
input. Every loop, in any state, progresses: a round that is no error ends at a later position, and no loop wants more
rounds. The document, or the error, is the reader's, and so are the tokens that are left. A block for which no closing
brace is left is an error. -/
theorem loops_progress (ts : Tokens) (limits : InputLimits) (p rounds : Nat) (hp : p ≤ ts.list.length)
    (hrounds : (ts.list.drop p).length ≤ rounds) :
    let E : Scope := ⟨ts, limits, rounds⟩
    let left (q : Nat) : Tokens := { ts with list := ts.list.drop q }
    advance.Meets E p (fun _ _ => True) (fun _ _ => False) ∧
    blocks.Progresses E p ∧ statements.Progresses E p ∧ (∀ bone, (clauses bone).Progresses E p) ∧
    (∀ name, (keyframes name).Progresses E p) ∧ entries.Progresses E p ∧
    document.Meets E p (fun D q => (left p).readDocument limits = (.ok D, left q))
      (fun e q => (left p).readDocument limits = (.error e, left q)) ∧
    ((∀ t ∈ ts.list.drop p, t.kind ≠ .closeBrace) →
      (∃ e q, pose E p = .fails e q) ∧ (∃ e q, animation E p = .fails e q) ∧ ∃ e q, main E p = .fails e q) := by
  intro E left
  have hE : E.last ≤ p + E.rounds := by
    rw [List.length_drop] at hrounds
    exact Nat.sub_le_iff_le_add'.mp hrounds
  have hread {x : Except CompileError Document} {q : Nat} (h : E.answer {} p = (x, ts.list.drop q)) :
      (left p).readDocument limits = (x, left q) := by
    have hrun : Reader.run limits (left p).stop {} (left p).list = (x, ts.list.drop q) := h
    rw [Tokens.readDocument, hrun]
  refine ⟨meets_advance_or_stay hp, blocks_progresses hp hE, statements_progresses hp hE,
    fun bone => clauses_progresses bone hp hE, fun name => keyframes_progresses name hp hE, entries_progresses hp hE,
    ?_, fun hnone => ?_⟩
  · exact (meets_document hp hE rfl).mono (fun _ _ _ _ h => hread h) fun _ _ h => hread h
  · have hopen (r : Nat) (hr : p ≤ r) : E.kind? r ≠ some .closeBrace := by
      intro hkind
      have hget : (ts.list.drop p)[r - p]? = some ⟨.closeBrace, E.span r⟩ := by
        rw [List.getElem?_drop, Nat.add_sub_cancel' hr]
        exact E.getElem?_of_kind? hkind
      exact hnone _ (List.mem_of_getElem? hget) rfl
    exact ⟨exists_fails (fun s q hq hrounds => ⟨_, meets_poseBehind (b := {}) hq hrounds rfl⟩) hp hE hopen,
      exists_fails (fun s q hq hrounds => ⟨_, meets_animationBehind (b := {}) hq hrounds rfl⟩) hp hE hopen,
      exists_fails (fun s q hq hrounds => ⟨_, meets_mainBehind (b := {}) hq hrounds rfl⟩) hp hE hopen⟩

/-- An animation that is cut off behind its only keyframe: seven tokens, seven rounds. -/
theorem cutOffAnimation_fails :
    let ts : Tokens := ⟨[.keyword "animation", .ident "a", .openBrace, .number 0.0, .colon, .ident "p",
      .semicolon].map (⟨·, default⟩), ⟨20, 1, 21⟩⟩
    let E : Scope := ⟨ts, {}, 7⟩
    (ts.list.drop 0).length ≤ 7 ∧ (∀ t ∈ ts.list.drop 0, t.kind ≠ .closeBrace) ∧
    (keyframes "a").Progresses E 0 ∧ ∃ e q, animation E 0 = .fails e q := by
  intro ts E
  have hrounds : (ts.list.drop 0).length ≤ 7 := by decide
  have hnone : ∀ t ∈ ts.list.drop 0, t.kind ≠ .closeBrace := by simp [ts]
  obtain ⟨-, -, -, -, hkeyframes, -, -, hfails⟩ := loops_progress ts {} 0 7 (Nat.zero_le _) hrounds
  exact ⟨hrounds, hnone, hkeyframes "a", (hfails hnone).2.1⟩

/-- It misses the brace at the end of the input, where its loop has ended. -/
example :
    let ts : Tokens := ⟨[.keyword "animation", .ident "a", .openBrace, .number 0.0, .colon, .ident "p",
      .semicolon].map (⟨·, default⟩), ⟨20, 1, 21⟩⟩
    animation ⟨ts, {}, 7⟩ 0 = .fails (.unexpected (.closeAnimation "a") none ⟨1, 21⟩) 7 := by
  rfl

end PoseLang.Descent
