import Mathlib.Order.Nat
import PoseLang.Proofs.Document.Grammar

/-!
# The reader reads the grammar

The reader of documents takes one token at a time. Here it is shown to accept exactly the tokens of
the grammar, and to give the document that they denote.

What is proved:

* where an item may stand, the reader goes on behind the tokens of an item, with what the item says,
  or behind the closing mark, and behind no other tokens (`accepts_clauseEnd_iff`,
  `accepts_poseBody_iff`, `accepts_animationBody_iff`, `accepts_mainBody_iff`);
* repeated items are read to their closing mark (`accepts_loop_iff`), so that between blocks the
  reader goes on behind whole blocks only (`accepts_block_iff`);
* reading some tokens gives a document if and only if they denote it and it is within the limits,
  and no tokens denote two documents (`readDocument_eq_ok_iff`).
-/

namespace PoseLang

open Grammar

/-- From here the tokens are read to their end, and give this document. -/
def Reader.Accepts (limits : InputLimits) (stop : Position) (r : Reader) (ts : List Token) (D : Document) : Prop :=
  (r.run limits stop ts).1 = .ok D

/-- After this step the tokens are read to their end, and give this document. -/
def Step.Accepts (limits : InputLimits) (stop : Position) : Step → List Token → Document → Prop
  | .next r, ts, D => r.Accepts limits stop ts D
  | .refuse _, _, _ => False
  | .reject _, _, _ => False

variable {limits : InputLimits} {stop : Position} {D : Document} {b : Blocks} {ts : List Token}

theorem accepts_cons_iff {r : Reader} {t : Token} :
    r.Accepts limits stop (t :: ts) D ↔ (r.step limits t).Accepts limits stop ts D := by
  unfold Reader.Accepts
  rw [Reader.run]
  cases r.step limits t with
  | next r => exact Iff.rfl
  | refuse e => exact ⟨nofun, False.elim⟩
  | reject e => exact ⟨nofun, False.elim⟩

/-- What is checked before a step has to fail. -/
theorem accepts_unless_iff {p : Prop} [Decidable p] {e : CompileError} {s : Step} :
    (if p then .reject e else s).Accepts limits stop ts D ↔ ¬ p ∧ s.Accepts limits stop ts D := by
  split
  next h => exact ⟨False.elim, fun h' => absurd h h'.1⟩
  next h => exact ⟨fun h' => ⟨h, h'⟩, And.right⟩

/-- Inside a block some token has to follow. -/
theorem exists_token {s : Stage} (h : (Reader.mk b (some s)).Accepts limits stop ts D) :
    ∃ kind span rest, ts = ⟨kind, span⟩ :: rest ∧
      (b.continueBlock limits s ⟨kind, span⟩).Accepts limits stop rest D := by
  cases ts with
  | nil => cases h
  | cons t rest => exact ⟨t.kind, t.span, rest, rfl, accepts_cons_iff.mp h⟩

/-- **Repetition.** Suppose that after any items the reader goes on behind a closing mark or behind one
more item, if there is room for it. Then it reads items up to a closing mark. -/
theorem accepts_loop_iff {α : Type} {phrase : List Token → α → Prop} {body : Array α → Stage}
    {close : Array α → Step} {mark : TokenKind} (room : Nat → Prop)
    (hbody : ∀ done ts, (Reader.mk b (some (body done))).Accepts limits stop ts D ↔
      (∃ span rest, ts = ⟨mark, span⟩ :: rest ∧ (close done).Accepts limits stop rest D) ∨
      ∃ us a rest, ts = us ++ rest ∧ phrase us a ∧ room done.size ∧
        (Reader.mk b (some (body (done.push a)))).Accepts limits stop rest D)
    (hphrase : ∀ {us a}, phrase us a → us ≠ []) (done : Array α) (ts : List Token) :
    (Reader.mk b (some (body done))).Accepts limits stop ts D ↔
      ∃ us as span rest, ts = us ++ [⟨mark, span⟩] ++ rest ∧ Many phrase us as ∧
        (∀ i < as.length, room (done.size + i)) ∧ (close (done ++ as.toArray)).Accepts limits stop rest D := by
  constructor
  · -- by induction on the number of tokens: an item takes at least one of them
    intro h
    induction hn : ts.length using Nat.strongRecOn generalizing ts done with
    | _ n ih =>
      rcases (hbody done ts).mp h with ⟨span, rest, rfl, hclose⟩ | ⟨us, a, rest, rfl, ha, hroom, hrest⟩
      · exact ⟨[], [], span, rest, rfl, .nil, nofun, by simpa using hclose⟩
      · have hlt : rest.length < n := by
          have := List.length_pos_iff.mpr (hphrase ha)
          rw [← hn, List.length_append]
          omega
        obtain ⟨vs, as, span, rest, rfl, has, hrooms, hclose⟩ := ih rest.length hlt (done.push a) rest hrest rfl
        refine ⟨us ++ vs, a :: as, span, rest, by simp, .cons ha has, ?_, by simpa using hclose⟩
        intro i hi
        cases i with
        | zero => exact hroom
        | succ i => simpa [Nat.add_right_comm, Nat.add_assoc] using hrooms i (by simpa using hi)
  · rintro ⟨us, as, span, rest, rfl, has, hrooms, hclose⟩
    induction has generalizing done with
    | nil => exact (hbody done _).mpr (.inl ⟨span, rest, rfl, by simpa using hclose⟩)
    | @cons us vs a as ha _ ih =>
      refine (hbody done _).mpr (.inr ⟨us, a, vs ++ [⟨mark, span⟩] ++ rest, by simp, ha, hrooms 0 (by simp), ?_⟩)
      refine ih (done.push a) (fun i hi => ?_) (by simpa using hclose)
      simpa [Nat.add_right_comm, Nat.add_assoc] using hrooms (i + 1) (by simpa using hi)

/-! ### Statements -/

variable {pose : PoseDraft} {statement : StatementDraft}

/-- After an action come a direction that it has and an amount. -/
theorem accepts_direction_iff {a : Action} {word : Span} :
    (Reader.mk b (some (.direction pose statement a word))).Accepts limits stop ts D ↔
      ∃ d w value s₁ s₂ rest, ts = ⟨.ident w, s₁⟩ :: ⟨.number value, s₂⟩ :: rest ∧
        sameWord d.word w ∧ (a.axis? d).isSome ∧
        (Reader.mk b (some (.clauseEnd pose (statement.add ⟨a, d, value, word⟩)))).Accepts limits stop rest D := by
  have hdirection (w : String) (d : Direction) :
      (Direction.ofWord? w).filter (fun d => (a.axis? d).isSome) = some d ↔
        sameWord d.word w ∧ (a.axis? d).isSome := by
    rw [Option.filter_eq_some_iff, direction_ofWord?_iff]
  constructor
  · intro h
    obtain ⟨kind, s₁, rest, rfl, h₁⟩ := exists_token h
    cases kind with
    | ident w =>
      simp only [Blocks.continueBlock] at h₁
      split at h₁
      next d hd =>
        obtain ⟨kind, s₂, rest, rfl, h₂⟩ := exists_token h₁
        cases kind with
        | number value =>
          obtain ⟨hw, ha⟩ := (hdirection w d).mp hd
          exact ⟨d, w, value, s₁, s₂, rest, rfl, hw, ha, h₂⟩
        | _ => exact False.elim h₂
      next => exact False.elim h₁
    | _ => exact False.elim h₁
  · rintro ⟨d, w, value, s₁, s₂, rest, rfl, hw, ha, h⟩
    rw [accepts_cons_iff]
    simp only [Reader.step, Blocks.continueBlock, (hdirection w d).mpr ⟨hw, ha⟩]
    exact accepts_cons_iff.mpr h

/-- Where an action is due comes a clause or, before the first clause, `reset`. -/
theorem accepts_action_iff :
    (Reader.mk b (some (.action pose statement))).Accepts limits stop ts D ↔
      (∃ w s₁ s₂ rest, ts = ⟨.ident w, s₁⟩ :: ⟨.semicolon, s₂⟩ :: rest ∧
        statement.done.isEmpty ∧ sameWord "reset" w ∧
        (Reader.mk b (some (.poseBody (pose.add statement.reset)))).Accepts limits stop rest D) ∨
      ∃ us c rest, ts = us ++ rest ∧ IsClause us c ∧
        (Reader.mk b (some (.clauseEnd pose (statement.add c)))).Accepts limits stop rest D := by
  constructor
  · intro h
    obtain ⟨kind, s₁, rest, rfl, h₁⟩ := exists_token h
    cases kind with
    | ident w =>
      simp only [Blocks.continueBlock] at h₁
      split at h₁
      next hreset =>
        obtain ⟨hempty, hw⟩ := Bool.and_eq_true_iff.mp hreset
        obtain ⟨kind, s₂, rest, rfl, h₂⟩ := exists_token h₁
        cases kind with
        | semicolon => exact .inl ⟨w, s₁, s₂, rest, rfl, hempty, hw, h₂⟩
        | _ => exact False.elim h₂
      next =>
        split at h₁
        next a ha =>
          obtain ⟨d, w', value, s₂, s₃, rest, rfl, hd, haxis, h₂⟩ := accepts_direction_iff.mp h₁
          exact .inr ⟨_, _, rest, rfl, .mk (action_ofWord?_iff.mp ha) hd haxis, h₂⟩
        next => exact False.elim h₁
    | _ => exact False.elim h₁
  · rintro (⟨w, s₁, s₂, rest, rfl, hempty, hw, h⟩ | ⟨us, c, rest, rfl, hc, h⟩)
    · rw [accepts_cons_iff]
      simp only [Reader.step, Blocks.continueBlock, hempty, hw, Bool.and_self, if_true]
      exact accepts_cons_iff.mpr h
    · cases hc with
      | @mk a d w w' value s₁ s₂ s₃ ha hd haxis =>
        rw [List.cons_append, accepts_cons_iff]
        simp only [Reader.step, Blocks.continueBlock, not_reset ha, Bool.and_false, Bool.false_eq_true, if_false,
          action_ofWord?_iff.mpr ha]
        exact accepts_direction_iff.mpr ⟨d, w', value, s₂, s₃, rest, rfl, hd, haxis, h⟩

variable (limits stop D b pose) in
/-- After a clause come further clauses up to a semicolon. -/
theorem accepts_clauseEnd_iff (bone : Bone) (word : Span) (c : Clause) (done : Array Clause) (ts : List Token) :
    (Reader.mk b (some (.clauseEnd pose ⟨bone, word, #[c] ++ done⟩))).Accepts limits stop ts D ↔
      (∃ span rest, ts = ⟨.semicolon, span⟩ :: rest ∧
        (b.goto (.poseBody (pose.add ⟨bone, .actions (c :: done.toList), word⟩))).Accepts limits stop rest D) ∨
      ∃ us c' rest, ts = us ++ rest ∧ IsNextClause us c' ∧ True ∧
        (Reader.mk b (some (.clauseEnd pose ⟨bone, word, #[c] ++ done.push c'⟩))).Accepts limits stop rest D := by
  have hfinish : (StatementDraft.mk bone word (#[c] ++ done)).finish =
      ⟨bone, .actions (c :: done.toList), word⟩ := by simp [StatementDraft.finish]
  have hadd (c' : Clause) : (StatementDraft.mk bone word (#[c] ++ done)).add c' =
      ⟨bone, word, #[c] ++ done.push c'⟩ := by simp [StatementDraft.add]
  have hempty : ¬ (#[c] ++ done).isEmpty = true := by simp
  constructor
  · intro h
    obtain ⟨kind, s₁, rest, rfl, h₁⟩ := exists_token h
    cases kind with
    | semicolon => exact .inl ⟨s₁, rest, rfl, hfinish ▸ h₁⟩
    | comma =>
      rcases accepts_action_iff.mp h₁ with ⟨_, _, _, _, _, h₂, _⟩ | ⟨us, c', rest, rfl, hc, h₂⟩
      · exact absurd h₂ hempty
      · exact .inr ⟨_, c', rest, rfl, .mk hc, trivial, hadd c' ▸ h₂⟩
    | _ => exact False.elim h₁
  · rintro (⟨s₁, rest, rfl, h⟩ | ⟨us, c', rest, rfl, hc, -, h⟩)
    · rw [← hfinish] at h
      exact accepts_cons_iff.mpr h
    · cases hc with
      | mk hc =>
        rw [List.cons_append, accepts_cons_iff]
        exact accepts_action_iff.mpr (.inr ⟨_, c', rest, rfl, hc, hadd c' ▸ h⟩)

/-- A first clause is followed by the others and a semicolon. -/
theorem accepts_clauses_iff {bone : Bone} {word : Span} {c : Clause} :
    (Reader.mk b (some (.clauseEnd pose ((StatementDraft.mk bone word #[]).add c)))).Accepts limits stop ts D ↔
      ∃ us cs span rest, ts = us ++ [⟨.semicolon, span⟩] ++ rest ∧ Many IsNextClause us cs ∧
        (b.goto (.poseBody (pose.add ⟨bone, .actions (c :: cs), word⟩))).Accepts limits stop rest D := by
  have hloop := accepts_loop_iff (fun _ => True) (accepts_clauseEnd_iff limits stop D b pose bone word c)
    IsNextClause.ne_nil #[] ts
  simpa [StatementDraft.add] using hloop

variable (limits stop D b) in
/-- Inside a pose comes a statement or the closing brace. -/
theorem accepts_poseBody_iff (keyword : Span) (name : String) (done : Array Statement) (ts : List Token) :
    (Reader.mk b (some (.poseBody ⟨keyword, name, done⟩))).Accepts limits stop ts D ↔
      (∃ span rest, ts = ⟨.closeBrace, span⟩ :: rest ∧
        (b.addPose limits ⟨name, done.toList, keyword⟩).Accepts limits stop rest D) ∨
      ∃ us s rest, ts = us ++ rest ∧ IsStatement us s ∧ True ∧
        (Reader.mk b (some (.poseBody ⟨keyword, name, done.push s⟩))).Accepts limits stop rest D := by
  constructor
  · intro h
    obtain ⟨kind, s₁, rest, rfl, h₁⟩ := exists_token h
    cases kind with
    | closeBrace => exact .inl ⟨s₁, rest, rfl, h₁⟩
    | ident word =>
      simp only [Blocks.continueBlock] at h₁
      split at h₁
      next bone hbone =>
        obtain rfl := bone_ofName?_iff.mp hbone
        rcases accepts_action_iff.mp h₁ with ⟨w, s₂, s₃, rest, rfl, -, hw, h₂⟩ | ⟨us, c, rest, rfl, hc, h₂⟩
        · exact .inr ⟨_, _, rest, rfl, .reset hw, trivial, h₂⟩
        · obtain ⟨vs, cs, s₂, rest, rfl, hcs, h₃⟩ := accepts_clauses_iff.mp h₂
          exact .inr ⟨⟨.ident bone.name, s₁⟩ :: (us ++ (vs ++ [⟨.semicolon, s₂⟩])), _, rest, by simp,
            .actions hc hcs, trivial, h₃⟩
      next => exact False.elim h₁
    | _ => exact False.elim h₁
  · rintro (⟨s₁, rest, rfl, h⟩ | ⟨us, s, rest, rfl, hs, -, h⟩)
    · exact accepts_cons_iff.mpr h
    · cases hs with
      | @reset bone w s₁ s₂ s₃ hw =>
        rw [List.cons_append, accepts_cons_iff]
        simp only [Reader.step, Blocks.continueBlock, bone_ofName?_iff.mpr rfl]
        exact accepts_action_iff.mpr (.inl ⟨w, s₂, s₃, rest, rfl, rfl, hw, h⟩)
      | @actions bone us vs c cs s₁ s₂ hc hcs =>
        rw [List.cons_append, accepts_cons_iff]
        simp only [Reader.step, Blocks.continueBlock, bone_ofName?_iff.mpr rfl]
        refine accepts_action_iff.mpr (.inr ⟨us, c, vs ++ [⟨.semicolon, s₂⟩] ++ rest, by simp, hc, ?_⟩)
        exact accepts_clauses_iff.mpr ⟨vs, cs, s₂, rest, rfl, hcs, h⟩

/-! ### Keyframes and entries -/

theorem accepts_addKeyframe_iff {keyword : Span} {name : String} {done : Array Keyframe} {k : Keyframe} :
    (b.addKeyframe limits ⟨keyword, name, done⟩ k).Accepts limits stop ts D ↔
      done.size < limits.keyframesPerAnimation ∧
        (Reader.mk b (some (.animationBody ⟨keyword, name, done.push k⟩))).Accepts limits stop ts D := by
  rw [Blocks.addKeyframe, accepts_unless_iff, Nat.not_le]
  rfl

variable (limits stop D b) in
/-- Inside an animation comes a keyframe or the closing brace. -/
theorem accepts_animationBody_iff (keyword : Span) (name : String) (done : Array Keyframe) (ts : List Token) :
    (Reader.mk b (some (.animationBody ⟨keyword, name, done⟩))).Accepts limits stop ts D ↔
      (∃ span rest, ts = ⟨.closeBrace, span⟩ :: rest ∧
        (b.addAnimation limits ⟨name, done.toList, keyword⟩).Accepts limits stop rest D) ∨
      ∃ us k rest, ts = us ++ rest ∧ IsKeyframe us k ∧ done.size < limits.keyframesPerAnimation ∧
        (Reader.mk b (some (.animationBody ⟨keyword, name, done.push k⟩))).Accepts limits stop rest D := by
  constructor
  · intro h
    obtain ⟨kind, s₁, rest, rfl, h₁⟩ := exists_token h
    cases kind with
    | closeBrace => exact .inl ⟨s₁, rest, rfl, h₁⟩
    | number time =>
      obtain ⟨kind, s₂, rest, rfl, h₂⟩ := exists_token h₁
      cases kind with
      | colon =>
        obtain ⟨kind, s₃, rest, rfl, h₃⟩ := exists_token h₂
        cases kind with
        | ident pose =>
          obtain ⟨kind, s₄, rest, rfl, h₄⟩ := exists_token h₃
          cases kind with
          | semicolon => exact .inr ⟨_, _, rest, rfl, .mk, accepts_addKeyframe_iff.mp h₄⟩
          | _ => exact False.elim h₄
        | _ => exact False.elim h₃
      | _ => exact False.elim h₂
    | _ => exact False.elim h₁
  · rintro (⟨s₁, rest, rfl, h⟩ | ⟨us, k, rest, rfl, ⟨⟩, h⟩)
    · exact accepts_cons_iff.mpr h
    · exact accepts_cons_iff.mpr (accepts_cons_iff.mpr (accepts_cons_iff.mpr (accepts_cons_iff.mpr
        (accepts_addKeyframe_iff.mpr h))))

theorem accepts_addEntry_iff {done : Array PlayEntry} {e : PlayEntry} :
    (b.addEntry limits done e).Accepts limits stop ts D ↔
      done.size < limits.playEntries ∧
        (Reader.mk b (some (.mainBody (done.push e)))).Accepts limits stop ts D := by
  rw [Blocks.addEntry, accepts_unless_iff, Nat.not_le]
  rfl

variable (limits stop D b) in
/-- Inside `main` comes an entry or the closing brace. -/
theorem accepts_mainBody_iff (done : Array PlayEntry) (ts : List Token) :
    (Reader.mk b (some (.mainBody done))).Accepts limits stop ts D ↔
      (∃ span rest, ts = ⟨.closeBrace, span⟩ :: rest ∧ (b.addMain done.toList).Accepts limits stop rest D) ∨
      ∃ us e rest, ts = us ++ rest ∧ IsEntry us e ∧ done.size < limits.playEntries ∧
        (Reader.mk b (some (.mainBody (done.push e)))).Accepts limits stop rest D := by
  constructor
  · intro h
    obtain ⟨kind, s₁, rest, rfl, h₁⟩ := exists_token h
    cases kind with
    | closeBrace => exact .inl ⟨s₁, rest, rfl, h₁⟩
    | ident name =>
      obtain ⟨kind, s₂, rest, rfl, h₂⟩ := exists_token h₁
      cases kind with
      | semicolon => exact .inr ⟨_, _, rest, rfl, .mk, accepts_addEntry_iff.mp h₂⟩
      | _ => exact False.elim h₂
    | _ => exact False.elim h₁
  · rintro (⟨s₁, rest, rfl, h⟩ | ⟨us, e, rest, rfl, ⟨⟩, h⟩)
    · exact accepts_cons_iff.mpr h
    · exact accepts_cons_iff.mpr (accepts_cons_iff.mpr (accepts_addEntry_iff.mpr h))

/-! ### Blocks -/

/-- What a block does to the blocks before it, if it may stand behind them. -/
@[mk_iff]
inductive Takes (limits : InputLimits) (b : Blocks) : Block → Blocks → Prop
  | pose {p : Pose} : b.poses.size < limits.poses → (∀ q ∈ b.poses, q.1 ≠ p.name) →
      Takes limits b (.pose p) { b with poses := b.poses.push (p.name, p) }
  | animation {a : Animation} : a.keyframes.length ≤ limits.keyframesPerAnimation →
      b.animations.size < limits.animations → (∀ q ∈ b.animations, q.1 ≠ a.name) →
      Takes limits b (.animation a) { b with animations := b.animations.push (a.name, a) }
  | main {entries : List PlayEntry} : entries.length ≤ limits.playEntries → b.main = none →
      Takes limits b (.main entries) { b with main := some entries }

theorem not_any_key_iff {β : Type} {xs : Array (String × β)} {name : String} :
    ¬ xs.any (·.1 = name) = true ↔ ∀ q ∈ xs, q.1 ≠ name := by
  rw [Array.any_eq_true']
  simp only [decide_eq_true_iff, not_exists, not_and, ne_eq]

theorem accepts_addPose_iff {p : Pose} :
    (b.addPose limits p).Accepts limits stop ts D ↔
      ∃ b', Takes limits b (.pose p) b' ∧ (Reader.mk b' none).Accepts limits stop ts D := by
  rw [Blocks.addPose, accepts_unless_iff, accepts_unless_iff, Nat.not_le, not_any_key_iff]
  constructor
  · rintro ⟨hroom, hnew, h⟩
    exact ⟨_, .pose hroom hnew, h⟩
  · rintro ⟨b', htakes, h⟩
    cases htakes with
    | pose hroom hnew => exact ⟨hroom, hnew, h⟩

theorem accepts_addAnimation_iff {a : Animation} (ha : a.keyframes.length ≤ limits.keyframesPerAnimation) :
    (b.addAnimation limits a).Accepts limits stop ts D ↔
      ∃ b', Takes limits b (.animation a) b' ∧ (Reader.mk b' none).Accepts limits stop ts D := by
  rw [Blocks.addAnimation, accepts_unless_iff, accepts_unless_iff, Nat.not_le, not_any_key_iff]
  constructor
  · rintro ⟨hroom, hnew, h⟩
    exact ⟨_, .animation ha hroom hnew, h⟩
  · rintro ⟨b', htakes, h⟩
    cases htakes with
    | animation _ hroom hnew => exact ⟨hroom, hnew, h⟩

/-- After `@pose` comes the rest of a pose. -/
theorem accepts_pose_iff {keyword : Span} :
    (Reader.mk b (some (.poseName keyword))).Accepts limits stop ts D ↔
      ∃ name body statements b' s₂ s₃ s₄ rest,
        ts = ⟨.ident name, s₂⟩ :: ⟨.openBrace, s₃⟩ :: (body ++ [⟨.closeBrace, s₄⟩]) ++ rest ∧
        Many IsStatement body statements ∧ Takes limits b (.pose ⟨name, statements, keyword⟩) b' ∧
        (Reader.mk b' none).Accepts limits stop rest D := by
  have hloop (name : String) (ts : List Token) := accepts_loop_iff (fun _ => True)
    (accepts_poseBody_iff limits stop D b keyword name) IsStatement.ne_nil #[] ts
  simp only [Array.empty_append, accepts_addPose_iff] at hloop
  constructor
  · intro h
    obtain ⟨kind, s₂, rest, rfl, h₂⟩ := exists_token h
    cases kind with
    | ident name =>
      obtain ⟨kind, s₃, rest, rfl, h₃⟩ := exists_token h₂
      cases kind with
      | openBrace =>
        obtain ⟨body, statements, s₄, rest, rfl, hbody, -, b', htakes, h₄⟩ := (hloop name rest).mp h₃
        exact ⟨name, body, statements, b', s₂, s₃, s₄, rest, rfl, hbody, htakes, h₄⟩
      | _ => exact False.elim h₃
    | _ => exact False.elim h₂
  · rintro ⟨name, body, statements, b', s₂, s₃, s₄, rest, rfl, hbody, htakes, h⟩
    refine accepts_cons_iff.mpr (accepts_cons_iff.mpr ((hloop name _).mpr ?_))
    exact ⟨body, statements, s₄, rest, rfl, hbody, fun _ _ => trivial, b', htakes, h⟩

/-- After `@animation` comes the rest of an animation. -/
theorem accepts_animation_iff {keyword : Span} :
    (Reader.mk b (some (.animationName keyword))).Accepts limits stop ts D ↔
      ∃ name body keyframes b' s₂ s₃ s₄ rest,
        ts = ⟨.ident name, s₂⟩ :: ⟨.openBrace, s₃⟩ :: (body ++ [⟨.closeBrace, s₄⟩]) ++ rest ∧
        Many IsKeyframe body keyframes ∧ Takes limits b (.animation ⟨name, keyframes, keyword⟩) b' ∧
        (Reader.mk b' none).Accepts limits stop rest D := by
  have hloop (name : String) (ts : List Token) := accepts_loop_iff (· < limits.keyframesPerAnimation)
    (accepts_animationBody_iff limits stop D b keyword name) IsKeyframe.ne_nil #[] ts
  simp only [Array.empty_append, Array.size_empty, Nat.zero_add] at hloop
  constructor
  · intro h
    obtain ⟨kind, s₂, rest, rfl, h₂⟩ := exists_token h
    cases kind with
    | ident name =>
      obtain ⟨kind, s₃, rest, rfl, h₃⟩ := exists_token h₂
      cases kind with
      | openBrace =>
        obtain ⟨body, keyframes, s₄, rest, rfl, hbody, hroom, h₄⟩ := (hloop name rest).mp h₃
        obtain ⟨b', htakes, h₅⟩ := (accepts_addAnimation_iff (forall_lt_iff_le.mp hroom)).mp h₄
        exact ⟨name, body, keyframes, b', s₂, s₃, s₄, rest, rfl, hbody, htakes, h₅⟩
      | _ => exact False.elim h₃
    | _ => exact False.elim h₂
  · rintro ⟨name, body, keyframes, b', s₂, s₃, s₄, rest, rfl, hbody, htakes, h⟩
    have hkeyframes : keyframes.length ≤ limits.keyframesPerAnimation := by
      cases htakes with
      | animation hkeyframes _ _ => exact hkeyframes
    refine accepts_cons_iff.mpr (accepts_cons_iff.mpr ((hloop name _).mpr ?_))
    exact ⟨body, keyframes, s₄, rest, rfl, hbody, forall_lt_iff_le.mpr hkeyframes,
      (accepts_addAnimation_iff hkeyframes).mpr ⟨b', htakes, h⟩⟩

/-- After a first `main` comes the rest of the block. -/
theorem accepts_main_iff (hb : b.main = none) :
    (Reader.mk b (some .mainOpen)).Accepts limits stop ts D ↔
      ∃ body entries b' s₂ s₃ rest,
        ts = ⟨.openBrace, s₂⟩ :: (body ++ [⟨.closeBrace, s₃⟩]) ++ rest ∧
        Many IsEntry body entries ∧ Takes limits b (.main entries) b' ∧
        (Reader.mk b' none).Accepts limits stop rest D := by
  have hloop (ts : List Token) := accepts_loop_iff (· < limits.playEntries)
    (accepts_mainBody_iff limits stop D b) IsEntry.ne_nil #[] ts
  simp only [Array.empty_append, Array.size_empty, Nat.zero_add] at hloop
  constructor
  · intro h
    obtain ⟨kind, s₂, rest, rfl, h₂⟩ := exists_token h
    cases kind with
    | openBrace =>
      obtain ⟨body, entries, s₃, rest, rfl, hbody, hroom, h₃⟩ := (hloop rest).mp h₂
      exact ⟨body, entries, _, s₂, s₃, rest, rfl, hbody, .main (forall_lt_iff_le.mp hroom) hb, h₃⟩
    | _ => exact False.elim h₂
  · rintro ⟨body, entries, b', s₂, s₃, rest, rfl, hbody, htakes, h⟩
    refine accepts_cons_iff.mpr ((hloop _).mpr ?_)
    cases htakes with
    | main hentries _ => exact ⟨body, entries, s₃, rest, rfl, hbody, forall_lt_iff_le.mpr hentries, h⟩

/-- Between blocks the tokens end, or a block follows that may stand there. -/
theorem accepts_block_iff :
    (Reader.mk b none).Accepts limits stop ts D ↔
      (ts = [] ∧ b.finish = D) ∨
      ∃ us block b' rest, ts = us ++ rest ∧ IsBlock us block ∧ Takes limits b block b' ∧
        (Reader.mk b' none).Accepts limits stop rest D := by
  constructor
  · intro h
    cases ts with
    | nil => exact .inl ⟨rfl, Except.ok.inj h⟩
    | cons t rest =>
      refine .inr ?_
      obtain ⟨kind, s₁⟩ := t
      have h₁ := accepts_cons_iff.mp h
      cases kind with
      | keyword word =>
        simp only [Reader.step, Blocks.openBlock] at h₁
        split at h₁
        next hword =>
          subst hword
          obtain ⟨name, body, statements, b', s₂, s₃, s₄, rest, rfl, hbody, htakes, h₂⟩ := accepts_pose_iff.mp h₁
          exact ⟨_, _, b', rest, rfl, .pose hbody, htakes, h₂⟩
        next =>
          split at h₁
          next hword =>
            subst hword
            obtain ⟨name, body, keyframes, b', s₂, s₃, s₄, rest, rfl, hbody, htakes, h₂⟩ :=
              accepts_animation_iff.mp h₁
            exact ⟨_, _, b', rest, rfl, .animation hbody, htakes, h₂⟩
          next => exact False.elim h₁
      | ident name =>
        simp only [Reader.step, Blocks.openBlock] at h₁
        split at h₁
        next hname =>
          subst hname
          split at h₁
          next => exact False.elim h₁
          next hmain =>
            obtain ⟨body, entries, b', s₂, s₃, rest, rfl, hbody, htakes, h₂⟩ :=
              (accepts_main_iff (by simpa using hmain)).mp h₁
            exact ⟨_, _, b', rest, rfl, .main hbody, htakes, h₂⟩
        next => exact False.elim h₁
      | _ => exact False.elim h₁
  · rintro (⟨rfl, rfl⟩ | ⟨us, block, b', rest, rfl, hblock, htakes, h⟩)
    · exact rfl
    · cases hblock with
      | @pose name body statements s₁ s₂ s₃ s₄ hbody =>
        refine accepts_cons_iff.mpr (accepts_pose_iff.mpr ?_)
        exact ⟨name, body, statements, b', s₂, s₃, s₄, rest, rfl, hbody, htakes, h⟩
      | @animation name body keyframes s₁ s₂ s₃ s₄ hbody =>
        refine accepts_cons_iff.mpr (accepts_animation_iff.mpr ?_)
        exact ⟨name, body, keyframes, b', s₂, s₃, s₄, rest, rfl, hbody, htakes, h⟩
      | @main body entries s₁ s₂ s₃ hbody =>
        have hmain : b.main = none := by
          cases htakes with
          | main _ hmain => exact hmain
        rw [List.cons_append, accepts_cons_iff]
        simp only [Reader.step, Blocks.openBlock, hmain, Option.isSome_none, Bool.false_eq_true, if_true, if_false]
        exact (accepts_main_iff hmain).mpr ⟨body, entries, b', s₂, s₃, rest, rfl, hbody, htakes, h⟩

/-! ### Documents -/

/-- A document has no more of anything than the limits allow. -/
@[mk_iff]
structure Document.Within (limits : InputLimits) (D : Document) : Prop where
  poses : D.poses.length ≤ limits.poses
  animations : D.animations.length ≤ limits.animations
  keyframes : ∀ a ∈ D.animations, a.2.keyframes.length ≤ limits.keyframesPerAnimation
  main : D.main.length ≤ limits.playEntries

/-- What the reader holds when it has read these blocks. -/
def Blocks.of (bs : List Block) : Blocks where
  poses := (document bs).poses.toArray
  animations := (document bs).animations.toArray
  main := (mains bs).head?

variable {bs bs' : List Block}

theorem nodup_concat_iff {α : Type} {l : List α} {a : α} : (l ++ [a]).Nodup ↔ a ∉ l ∧ l.Nodup := by
  rw [(List.perm_append_singleton a l).nodup_iff, List.nodup_cons]

theorem within_document_iff :
    (document bs).Within limits ↔
      (poses bs).length ≤ limits.poses ∧ (animations bs).length ≤ limits.animations ∧
      (∀ a ∈ animations bs, a.keyframes.length ≤ limits.keyframesPerAnimation) ∧
      ((mains bs).head?.getD []).length ≤ limits.playEntries := by
  simp [Document.within_iff, document]

/-- A block may stand behind others if and only if the blocks with it are distinct and within the limits. -/
theorem takes_of_iff {block : Block} (hd : Distinct bs) (hw : (document bs).Within limits) :
    Takes limits (.of bs) block b ↔
      b = .of (bs ++ [block]) ∧ Distinct (bs ++ [block]) ∧ (document (bs ++ [block])).Within limits := by
  obtain ⟨hposes, hanimations, hmains⟩ := hd
  obtain ⟨hp, ha, hk, hm⟩ := within_document_iff.mp hw
  rw [takes_iff, distinct_iff, within_document_iff]
  cases block with
  | pose p =>
    simp [nodup_concat_iff, document, Blocks.of, hposes, hanimations, hmains, ha, hm]
    constructor
    · rintro ⟨hroom, hnew, hb⟩
      exact ⟨hb, hnew, hroom, hk⟩
    · rintro ⟨hb, hnew, hroom, -⟩
      exact ⟨hroom, hnew, hb⟩
  | animation a =>
    simp [nodup_concat_iff, document, Blocks.of, hposes, hanimations, hmains, hp, hm, or_imp, forall_and]
    constructor
    · rintro ⟨hkeyframes, hroom, hnew, hb⟩
      exact ⟨hb, hnew, hroom, hk, hkeyframes⟩
    · rintro ⟨hb, hnew, hroom, -, hkeyframes⟩
      exact ⟨hkeyframes, hroom, hnew, hb⟩
  | main entries =>
    simp [document, Blocks.of, hposes, hanimations, hp, ha]
    constructor
    · rintro ⟨hentries, hmain, hb⟩
      exact ⟨by simpa [hmain] using hb, hmain, hk, by simpa [hmain] using hentries⟩
    · rintro ⟨hb, hmain, -, hentries⟩
      exact ⟨by simpa [hmain] using hentries, hmain, by simpa [hmain] using hb⟩

theorem within_left (h : (document (bs ++ bs')).Within limits) : (document bs).Within limits := by
  rw [within_document_iff, poses_append, animations_append, mains_append] at h
  obtain ⟨hp, ha, hk, hm⟩ := h
  rw [List.length_append] at hp ha
  refine within_document_iff.mpr ⟨Nat.le_of_add_right_le hp, Nat.le_of_add_right_le ha,
    fun a hmem => hk a (List.mem_append_left _ hmem), ?_⟩
  cases hmains : mains bs with
  | nil => exact Nat.zero_le _
  | cons entries _ => simpa [hmains] using hm

/-- Behind distinct blocks the reader reads further blocks, as long as all are distinct and within the
limits. -/
theorem accepts_of_iff (hd : Distinct bs) (hw : (document bs).Within limits) :
    (Reader.mk (.of bs) none).Accepts limits stop ts D ↔
      ∃ bs', Many IsBlock ts bs' ∧ Distinct (bs ++ bs') ∧ (document (bs ++ bs')).Within limits ∧
        document (bs ++ bs') = D := by
  constructor
  · intro h
    induction hn : ts.length using Nat.strongRecOn generalizing ts bs with
    | _ n ih =>
      rcases accepts_block_iff.mp h with ⟨rfl, hD⟩ | ⟨us, block, b', rest, rfl, hblock, htakes, hrest⟩
      · exact ⟨[], .nil, by simpa using hd, by simpa using hw, by rw [List.append_nil]; exact hD⟩
      · obtain ⟨rfl, hd', hw'⟩ := (takes_of_iff hd hw).mp htakes
        have hlt : rest.length < n := by
          have := List.length_pos_iff.mpr hblock.ne_nil
          rw [← hn, List.length_append]
          omega
        obtain ⟨bs', hbs', hd'', hw'', hD⟩ := ih rest.length hlt hd' hw' hrest rfl
        rw [List.append_assoc] at hd'' hw'' hD
        exact ⟨block :: bs', .cons hblock hbs', hd'', hw'', hD⟩
  · rintro ⟨bs', hbs', hd', hw', rfl⟩
    induction hbs' generalizing bs with
    | nil => exact accepts_block_iff.mpr (.inl ⟨rfl, by rw [List.append_nil]; rfl⟩)
    | @cons us vs block bs' hblock _ ih =>
      rw [List.append_cons] at hd' hw' ⊢
      have htakes := (takes_of_iff hd hw).mpr ⟨rfl, hd'.left, within_left hw'⟩
      exact accepts_block_iff.mpr (.inr ⟨us, block, _, vs, rfl, hblock, htakes, ih hd'.left (within_left hw') hd' hw'⟩)

/-- Reading gives exactly the documents that the tokens denote and that are within the limits. -/
theorem readDocument_iff (ts : Tokens) :
    (ts.readDocument limits).1 = .ok D ↔ Denotes ts.list D ∧ D.Within limits := by
  have hempty : (document []).Within limits := within_document_iff.mpr
    ⟨Nat.zero_le _, Nat.zero_le _, nofun, Nat.zero_le _⟩
  have hread : (Reader.mk (.of []) none).Accepts limits ts.stop ts.list D ↔ _ :=
    accepts_of_iff ⟨List.nodup_nil, List.nodup_nil, Nat.zero_le _⟩ hempty
  refine Iff.trans hread ?_
  constructor
  · rintro ⟨bs, hbs, hd, hw, rfl⟩
    exact ⟨⟨bs, hbs, hd, rfl⟩, hw⟩
  · rintro ⟨⟨bs, hbs, hd, rfl⟩, hw⟩
    exact ⟨bs, hbs, hd, hw, rfl⟩

/-- Some limits allow two given documents. -/
theorem exists_within (D D' : Document) : ∃ limits, D.Within limits ∧ D'.Within limits := by
  let all := ((D.animations ++ D'.animations).map (·.2.keyframes)).flatten
  have hall : ∀ a ∈ D.animations ++ D'.animations, a.2.keyframes.length ≤ all.length := by
    intro a ha
    have hmem : a.2.keyframes ∈ (D.animations ++ D'.animations).map (·.2.keyframes) := List.mem_map_of_mem ha
    exact (List.sublist_flatten_of_mem hmem).length_le
  refine ⟨{ poses := D.poses.length + D'.poses.length, animations := D.animations.length + D'.animations.length,
            keyframesPerAnimation := all.length, playEntries := D.main.length + D'.main.length }, ?_, ?_⟩
  · exact ⟨Nat.le_add_right .., Nat.le_add_right .., fun a ha => hall a (List.mem_append_left _ ha),
      Nat.le_add_right ..⟩
  · exact ⟨Nat.le_add_left .., Nat.le_add_left .., fun a ha => hall a (List.mem_append_right _ ha),
      Nat.le_add_left ..⟩

/-- The grammar is unambiguous: under limits that allow both documents the reader can only give one. -/
theorem Grammar.Denotes.unique {ts : List Token} {D D' : Document} (h : Denotes ts D) (h' : Denotes ts D') :
    D' = D := by
  obtain ⟨limits, hw, hw'⟩ := exists_within D D'
  have hD := (readDocument_iff ⟨ts, .start⟩).mpr ⟨h, hw⟩
  have hD' := (readDocument_iff ⟨ts, .start⟩).mpr ⟨h', hw'⟩
  exact Except.ok.inj (hD'.symm.trans hD)

/-- The keys of a document are the names of its definitions, they differ, and no statement is without
clauses. -/
structure Document.WellFormed (D : Document) : Prop where
  poseKey : ∀ p ∈ D.poses, p.1 = p.2.name
  animationKey : ∀ a ∈ D.animations, a.1 = a.2.name
  poses_nodup : (D.poses.map Prod.fst).Nodup
  animations_nodup : (D.animations.map Prod.fst).Nodup
  clauses : ∀ p ∈ D.poses, ∀ s ∈ p.2.statements, s.deed ≠ .actions []

/-- What stands in a row was said by tokens that stand together. -/
theorem Grammar.Many.exists_infix {α : Type} {phrase : List Token → α → Prop} {ts : List Token} {as : List α}
    (h : Many phrase ts as) {a : α} (ha : a ∈ as) : ∃ us, us <:+: ts ∧ phrase us a := by
  induction h with
  | nil => cases ha
  | @cons us vs b _ hb _ ih =>
    rcases List.mem_cons.mp ha with rfl | ha
    · exact ⟨us, (List.prefix_append us vs).isInfix, hb⟩
    · obtain ⟨ws, hws, hphrase⟩ := ih ha
      exact ⟨ws, hws.trans (List.suffix_append us vs).isInfix, hphrase⟩

/-- What stands in a row was said by some of the tokens. -/
theorem Grammar.Many.exists_phrase {α : Type} {phrase : List Token → α → Prop} {ts : List Token} {as : List α}
    (h : Many phrase ts as) : ∀ a ∈ as, ∃ us ⊆ ts, phrase us a := by
  intro a ha
  obtain ⟨us, hus, hphrase⟩ := h.exists_infix ha
  exact ⟨us, hus.subset, hphrase⟩

theorem Grammar.Denotes.wellFormed {ts : List Token} {D : Document} (h : Denotes ts D) : D.WellFormed := by
  obtain ⟨bs, hbs, hd, rfl⟩ := h
  refine ⟨?_, ?_, ?_, ?_, ?_⟩
  · simp [document]
  · simp [document]
  · simpa [document, Function.comp_def] using hd.poses
  · simpa [document, Function.comp_def] using hd.animations
  · intro p hp s hs
    obtain ⟨q, hq, rfl⟩ := List.mem_map.mp hp
    obtain ⟨block, hblock, hq⟩ := List.mem_filterMap.mp hq
    obtain ⟨us, -, hblock⟩ := hbs.exists_phrase block hblock
    cases hblock with
    | pose hstatements =>
      cases hq
      obtain ⟨vs, -, hvs⟩ := hstatements.exists_phrase s hs
      cases hvs <;> exact nofun
    | animation _ => cases hq
    | main _ => cases hq

/-- **The reader accepts its grammar.** Reading tokens gives a document if and only if the grammar derives
them, with this meaning, and the document is within the limits. The meaning is one, and well formed. -/
theorem readDocument_eq_ok_iff (limits : InputLimits) (ts : Tokens) (D : Document) :
    ((ts.readDocument limits).1 = .ok D ↔ Denotes ts.list D ∧ D.Within limits) ∧
    (Denotes ts.list D → D.WellFormed ∧ ∀ D', Denotes ts.list D' → D' = D) :=
  ⟨readDocument_iff ts, fun h => ⟨h.wellFormed, fun _ h' => h.unique h'⟩⟩

/-- Names may be words of the language, and the words of clauses may be in capitals. -/
theorem denotes_pose_main :
    let tokens : List Token := [.keyword "pose", .ident "main", .openBrace,
      .ident "center", .ident "Move", .ident "UP", .number 2, .comma,
      .ident "bend", .ident "forward", .number 5, .semicolon,
      .ident "center", .ident "Reset", .semicolon, .closeBrace].map (⟨·, default⟩)
    let D : Document := { poses := [("main", ⟨"main",
      [⟨.center, .actions [⟨.move, .up, 2, default⟩, ⟨.bend, .forward, 5, default⟩], default⟩,
       ⟨.center, .reset, default⟩], default⟩)] }
    Denotes tokens D ∧ D.WellFormed ∧ ∀ D', Denotes tokens D' → D' = D := by
  intro tokens D
  obtain ⟨hread, hmeaning⟩ := readDocument_eq_ok_iff {} ⟨tokens, .start⟩ D
  have hdenotes : Denotes tokens D := (hread.mp (by decide +kernel)).1
  exact ⟨hdenotes, hmeaning hdenotes⟩

end PoseLang
