import Mathlib.Data.List.Flatten
import PoseLang.Proofs.Document.Checked
import PoseLang.Proofs.Document.Reader
import PoseLang.Proofs.Token.Lexer

/-!
# Where things stand in a text

The tokens of a text stand one behind the other, line by line and column by column (`Location.Before`), and what the
grammar makes of them keeps this order: clauses, keyframes and entries are made of tokens that stand together in the
text, and the clauses of a text come in the order of their places.

What is proved:

* a place after more characters is a later one (`before_advance`), so the places of the tokens of a text ascend
  (`Splits.pairwise_before`);
* clauses, keyframes and entries of blocks are stretches of the tokens (`exists_isClause`, `exists_isKeyframe`,
  `exists_isEntry`);
* the places of the clauses of blocks are some of the places of the tokens, in their order (`sublist_clauses`).
-/

namespace PoseLang

/-! ### Order of places -/

/-- On an earlier line, or in an earlier column of the same line. -/
def Location.Before (l m : Location) : Prop := l.line < m.line ∨ l.line = m.line ∧ l.column < m.column

theorem Location.Before.trans {l m n : Location} (h : l.Before m) (h' : m.Before n) : l.Before n := by
  unfold Before at *
  omega

theorem Location.Before.ne {l m : Location} (h : l.Before m) : l ≠ m := by
  rintro rfl
  unfold Before at h
  omega

theorem before_step (p : Position) (c : Char) : p.location.Before (p.step c).location := by
  unfold Position.step
  split
  · exact .inl (Nat.lt_succ_self p.line)
  · exact .inr ⟨rfl, Nat.lt_succ_self p.column⟩

/-- The place after more characters is a later one. -/
theorem before_advance (p : Position) {text : List Char} (h : text ≠ []) :
    p.location.Before (p.advance text).location := by
  induction text generalizing p with
  | nil => exact absurd rfl h
  | cons c cs ih =>
    have hstep := before_step p c
    cases cs with
    | nil => exact hstep
    | cons d cs => exact hstep.trans (ih (p.step c) (List.cons_ne_nil d cs))

namespace Lexical

theorem Splits.exists_location {before cs : List Char} {tokens : List Token} (h : Splits before cs tokens) :
    ∀ t ∈ tokens, ∃ text, t.span.location = ((placeAfter before).advance text).location := by
  induction h with
  | stop => exact nofun
  | @token before gap text _ _ _ _ _ _ _ ih =>
    intro t ht
    rcases List.mem_cons.mp ht with rfl | ht
    · exact ⟨gap, by rw [advance_placeAfter]; rfl⟩
    · obtain ⟨text', htext'⟩ := ih t ht
      refine ⟨gap ++ text ++ text', htext'.trans ?_⟩
      simp only [advance_placeAfter, List.append_assoc]

/-- The places of the tokens of a text ascend. -/
theorem Splits.pairwise_before {before cs : List Char} {tokens : List Token} (h : Splits before cs tokens) :
    tokens.Pairwise fun t u => t.span.location.Before u.span.location := by
  induction h with
  | stop => exact .nil
  | @token before gap text _ _ _ _ hspells _ hrest ih =>
    refine List.pairwise_cons.mpr ⟨fun u hu => ?_, ih⟩
    -- a later token stands behind this lexeme, which is not empty
    obtain ⟨text', htext'⟩ := hrest.exists_location u hu
    obtain ⟨c, cs, rfl, -⟩ := hspells.isLexeme.exists_start
    rw [htext', ← advance_placeAfter (before ++ gap), ← Position.advance_append]
    exact before_advance (placeAfter (before ++ gap)) (List.cons_ne_nil c (cs ++ text'))

end Lexical

/-! ### Phrases stand in the tokens -/

namespace Grammar

section

variable {α : Type} {phrase : List Token → α → Prop} {ts : List Token} {as : List α}

/-- If what phrases have stands in their tokens, in order, so does what all of them have. -/
theorem Many.sublist {β : Type} {f : α → List β} {g : Token → β} (h : Many phrase ts as)
    (hphrase : ∀ us a, phrase us a → (f a).Sublist (us.map g)) : (as.flatMap f).Sublist (ts.map g) := by
  induction h with
  | nil => exact .slnil
  | cons ha _ ih =>
    rw [List.flatMap_cons, List.map_append]
    exact (hphrase _ _ ha).append ih

end

section

variable {ts : List Token} {bs : List Block}

theorem mem_poses {p : Pose} (h : p ∈ poses bs) : .pose p ∈ bs := by
  obtain ⟨block, hblock, hp⟩ := List.mem_filterMap.mp h
  cases block <;> cases hp
  exact hblock

theorem mem_animations {a : Animation} (h : a ∈ animations bs) : .animation a ∈ bs := by
  obtain ⟨block, hblock, ha⟩ := List.mem_filterMap.mp h
  cases block <;> cases ha
  exact hblock

theorem mem_mains {es : List PlayEntry} (h : es ∈ mains bs) : .main es ∈ bs := by
  obtain ⟨block, hblock, hes⟩ := List.mem_filterMap.mp h
  cases block <;> cases hes
  exact hblock

theorem IsStatement.exists_isClause {s : Statement} (h : IsStatement ts s) {c : Clause} (hc : c ∈ s.clauses) :
    ∃ us, us <:+: ts ∧ IsClause us c := by
  cases h with
  | reset => cases hc
  | @actions b us vs c' cs s₁ s₂ hfirst hnext =>
    rcases List.mem_cons.mp hc with rfl | hc
    · exact ⟨us, ⟨[⟨.ident b.name, s₁⟩], vs ++ [⟨.semicolon, s₂⟩], by simp⟩, hfirst⟩
    · obtain ⟨ws, hws, ⟨hclause⟩⟩ := hnext.exists_infix hc
      refine ⟨_, (List.suffix_cons _ _).isInfix.trans (hws.trans ?_), hclause⟩
      exact ⟨⟨.ident b.name, s₁⟩ :: us, [⟨.semicolon, s₂⟩], by simp⟩

/-- The clauses of blocks are stretches of the tokens. -/
theorem exists_isClause (h : Many IsBlock ts bs) {p : Pose} (hp : p ∈ poses bs) {s : Statement}
    (hs : s ∈ p.statements) {c : Clause} (hc : c ∈ s.clauses) : ∃ us, us <:+: ts ∧ IsClause us c := by
  obtain ⟨us, hus, hblock⟩ := h.exists_infix (mem_poses hp)
  cases hblock with
  | @pose name body statements s₁ s₂ s₃ s₄ hbody =>
    obtain ⟨vs, hvs, hstatement⟩ := hbody.exists_infix hs
    obtain ⟨ws, hws, hclause⟩ := hstatement.exists_isClause hc
    refine ⟨ws, hws.trans (hvs.trans (List.IsInfix.trans ?_ hus)), hclause⟩
    exact ⟨[⟨.keyword "pose", s₁⟩, ⟨.ident name, s₂⟩, ⟨.openBrace, s₃⟩], [⟨.closeBrace, s₄⟩], rfl⟩

/-- The keyframes of blocks are stretches of the tokens. -/
theorem exists_isKeyframe (h : Many IsBlock ts bs) {a : Animation} (ha : a ∈ animations bs) {k : Keyframe}
    (hk : k ∈ a.keyframes) : ∃ us, us <:+: ts ∧ IsKeyframe us k := by
  obtain ⟨us, hus, hblock⟩ := h.exists_infix (mem_animations ha)
  cases hblock with
  | @animation name body keyframes s₁ s₂ s₃ s₄ hbody =>
    obtain ⟨vs, hvs, hkeyframe⟩ := hbody.exists_infix hk
    refine ⟨vs, hvs.trans (List.IsInfix.trans ?_ hus), hkeyframe⟩
    exact ⟨[⟨.keyword "animation", s₁⟩, ⟨.ident name, s₂⟩, ⟨.openBrace, s₃⟩], [⟨.closeBrace, s₄⟩], rfl⟩

/-- The entries of `main` are stretches of the tokens. -/
theorem exists_isEntry (h : Many IsBlock ts bs) {es : List PlayEntry} (hes : es ∈ mains bs) {e : PlayEntry}
    (he : e ∈ es) : ∃ us, us <:+: ts ∧ IsEntry us e := by
  obtain ⟨us, hus, hblock⟩ := h.exists_infix (mem_mains hes)
  cases hblock with
  | @main body entries s₁ s₂ s₃ hbody =>
    obtain ⟨vs, hvs, hentry⟩ := hbody.exists_infix he
    refine ⟨vs, hvs.trans (List.IsInfix.trans ?_ hus), hentry⟩
    exact ⟨[⟨.ident "main", s₁⟩, ⟨.openBrace, s₂⟩], [⟨.closeBrace, s₃⟩], rfl⟩

end

end Grammar

/-! ### Clauses in order -/

/-- The clauses of a pose, statement by statement. -/
def Pose.clauses (p : Pose) : List Clause := p.statements.flatMap Statement.clauses

namespace Grammar

variable {ts : List Token} {bs : List Block}

theorem IsClause.sublist {c : Clause} (h : IsClause ts c) :
    [c.span.location].Sublist (ts.map (·.span.location)) := by
  cases h
  simp

theorem IsNextClause.sublist {c : Clause} (h : IsNextClause ts c) :
    [c.span.location].Sublist (ts.map (·.span.location)) := by
  obtain ⟨hclause⟩ := h
  exact hclause.sublist.cons _

theorem IsStatement.sublist {s : Statement} (h : IsStatement ts s) :
    (s.clauses.map (·.span.location)).Sublist (ts.map (·.span.location)) := by
  cases h with
  | reset => exact List.nil_sublist _
  | @actions b us vs c cs s₁ s₂ hfirst hnext =>
    have hcs := hnext.sublist fun _ _ => IsNextClause.sublist
    rw [← List.map_eq_flatMap] at hcs
    simp only [List.map_cons, List.map_append]
    exact (hfirst.sublist.append (hcs.trans (List.sublist_append_left _ _))).cons _

theorem IsBlock.sublist {b : Block} (h : IsBlock ts b) :
    (((poses [b]).flatMap Pose.clauses).map (·.span.location)).Sublist (ts.map (·.span.location)) := by
  cases h with
  | @pose name body statements s₁ s₂ s₃ s₄ hbody =>
    have hstatements := hbody.sublist fun _ _ => IsStatement.sublist
    rw [← List.map_flatMap] at hstatements
    simp only [poses_singleton, List.flatMap_singleton, List.map_cons, List.map_append]
    exact (((hstatements.trans (List.sublist_append_left _ _)).cons _).cons _).cons _
  | animation => exact List.nil_sublist _
  | main => exact List.nil_sublist _

/-- The clauses of blocks come in the order of their places in the text. -/
theorem sublist_clauses (h : Many IsBlock ts bs) :
    (((poses bs).flatMap Pose.clauses).map (·.span.location)).Sublist (ts.map (·.span.location)) := by
  induction h with
  | nil => exact .slnil
  | @cons us vs b bs hb _ ih =>
    rw [← List.singleton_append, poses_append, List.flatMap_append, List.map_append, List.map_append]
    exact hb.sublist.append ih

end Grammar

end PoseLang
