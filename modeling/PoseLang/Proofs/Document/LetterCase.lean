import PoseLang.Proofs.Document.Layout
import PoseLang.Proofs.Document.Reader
import PoseLang.Proofs.Token.LetterCase

/-!
# Words in any case

Actions, directions and `reset` may be written in any case of the letters, and nothing else may: a name is another name
in another case, and the same word may be a name in one place and an action in another. Where a word stands decides it.
Three tokens in a row that are a clause have an action and a direction, and three that are a statement have a `reset`
(`IsWordPlace`). In tokens that are read as a document, no other tokens look like that, so the reader is at an action,
at a direction or behind a bone when it comes to such a word, and goes on the same whatever case the word is in.

What is proved:

* what a word does to a reader, by the stage that it is in (`ReadsWord`, `readsWord_of_step`, `step_of_readsWord`);
* where the reader is when it comes to an action, a direction or `reset` (`readsWord_recase`);
* so tokens with such words in another case are read alike (`accepts_recased`), and so are texts
  (`parse_recased`).
-/

namespace PoseLang

open Grammar Lexical

/-! ### Words of clauses and statements -/

/-- An action, a direction or a `reset`, between the tokens before it and those after it. -/
inductive IsWordPlace : List Token → Token → List Token → Prop
  | action {before after : List Token} {t d n : Token} {c : Clause} :
      IsClause [t, d, n] c → IsWordPlace before t (d :: n :: after)
  | direction {before after : List Token} {a t n : Token} {c : Clause} :
      IsClause [a, t, n] c → IsWordPlace (before ++ [a]) t (n :: after)
  | reset {before after : List Token} {b t e : Token} {bone : Bone} {s : Span} :
      IsStatement [b, t, e] ⟨bone, .reset, s⟩ → IsWordPlace (before ++ [b]) t (e :: after)

theorem exists_of_reset {b t e : Token} {bone : Bone} {s : Span} (h : IsStatement [b, t, e] ⟨bone, .reset, s⟩) :
    ∃ w₁ w₂ s₁ s₂ s₃, b = ⟨.ident w₁, s₁⟩ ∧ t = ⟨.ident w₂, s₂⟩ ∧ e = ⟨.semicolon, s₃⟩ := by
  generalize hts : [b, t, e] = ts at h
  generalize hst : Statement.mk bone .reset s = st at h
  cases h with
  | reset =>
    cases hts
    exact ⟨_, _, _, _, _, rfl, rfl, rfl⟩
  | actions => cases hst

theorem IsWordPlace.exists_word {before after : List Token} {t : Token} (h : IsWordPlace before t after) :
    ∃ w s, t = ⟨.ident w, s⟩ := by
  cases h with
  | action hclause =>
    cases hclause
    exact ⟨_, _, rfl⟩
  | direction hclause =>
    cases hclause
    exact ⟨_, _, rfl⟩
  | reset hstatement =>
    obtain ⟨-, w, -, s, -, -, rfl, -⟩ := exists_of_reset hstatement
    exact ⟨w, s, rfl⟩

/-- Behind the tokens `before`, the second tokens are the first with actions, directions and `reset` in any case. -/
inductive Recased : List Token → List Token → List Token → Prop
  | nil {before : List Token} : Recased before [] []
  | same {before ts ts' : List Token} {t : Token} : Recased (before ++ [t]) ts ts' → Recased before (t :: ts) (t :: ts')
  | word {before ts ts' : List Token} {w w' : String} {s : Span} :
      IsWordPlace before ⟨.ident w, s⟩ ts → sameWord w w' → Recased (before ++ [⟨.ident w, s⟩]) ts ts' →
      Recased before (⟨.ident w, s⟩ :: ts) (⟨.ident w', s⟩ :: ts')

/-! ### One word -/

/-- A word takes a reader from one stage to the next. -/
inductive ReadsWord (b : Blocks) (w : String) (s : Span) : Option Stage → Stage → Prop
  | main : w = "main" → b.main = none → ReadsWord b w s none .mainOpen
  | poseName {k : Span} : ReadsWord b w s (some (.poseName k)) (.poseOpen k w)
  | bone {p : PoseDraft} {bone : Bone} : Bone.ofName? w = some bone →
      ReadsWord b w s (some (.poseBody p)) (.action p ⟨bone, s, #[]⟩)
  | reset {p : PoseDraft} {st : StatementDraft} : st.done.isEmpty → sameWord "reset" w →
      ReadsWord b w s (some (.action p st)) (.resetEnd p st)
  | action {p : PoseDraft} {st : StatementDraft} {a : Action} : sameWord a.word w →
      ReadsWord b w s (some (.action p st)) (.direction p st a s)
  | direction {p : PoseDraft} {st : StatementDraft} {a : Action} {d : Direction} {word : Span} : sameWord d.word w →
      (a.axis? d).isSome → ReadsWord b w s (some (.direction p st a word)) (.amount p st a d word)
  | animationName {k : Span} : ReadsWord b w s (some (.animationName k)) (.animationOpen k w)
  | keyframePose {d : AnimationDraft} {time : Float} {number : Span} :
      ReadsWord b w s (some (.keyframePose d time number)) (.keyframeEnd d ⟨time, w, number⟩)
  | entry {done : Array PlayEntry} : ReadsWord b w s (some (.mainBody done)) (.entryEnd done ⟨w, s⟩)

section

variable {limits : InputLimits} {stop : Position} {D : Document} {b : Blocks} {old : Option Stage} {stage : Stage}
  {r r' : Reader} {t : Token} {before ts ts' : List Token} {w w' : String} {s : Span}

theorem readsWord_of_step (h : (Reader.mk b old).step limits ⟨.ident w, s⟩ = .next r') :
    ∃ stage, r' = ⟨b, some stage⟩ ∧ ReadsWord b w s old stage := by
  cases old with
  | none =>
    simp only [Reader.step, Blocks.openBlock] at h
    split at h
    next hw =>
      split at h
      · cases h
      next hmain =>
        cases h
        exact ⟨_, rfl, .main hw (by simpa using hmain)⟩
    · cases h
  | some stage =>
    simp only [Reader.step, Blocks.continueBlock] at h
    cases stage with
    | poseName k =>
      cases h
      exact ⟨_, rfl, .poseName⟩
    | poseBody p =>
      simp only at h
      split at h
      next bone hbone =>
        cases h
        exact ⟨_, rfl, .bone hbone⟩
      · cases h
    | action p st =>
      simp only at h
      split at h
      next hreset =>
        cases h
        obtain ⟨hempty, hw⟩ := Bool.and_eq_true_iff.mp hreset
        exact ⟨_, rfl, .reset hempty hw⟩
      next =>
        split at h
        next a ha =>
          cases h
          exact ⟨_, rfl, .action (action_ofWord?_iff.mp ha)⟩
        · cases h
    | direction p st a word =>
      simp only at h
      split at h
      next d hd =>
        cases h
        obtain ⟨hw, haxis⟩ := Option.filter_eq_some_iff.mp hd
        exact ⟨_, rfl, .direction (direction_ofWord?_iff.mp hw) haxis⟩
      · cases h
    | animationName k =>
      cases h
      exact ⟨_, rfl, .animationName⟩
    | keyframePose d time number =>
      cases h
      exact ⟨_, rfl, .keyframePose⟩
    | mainBody done =>
      cases h
      exact ⟨_, rfl, .entry⟩
    | _ => cases h

theorem step_of_readsWord (h : ReadsWord b w s old stage) :
    (Reader.mk b old).step limits ⟨.ident w, s⟩ = .next ⟨b, some stage⟩ := by
  cases h with
  | main hw hmain => simp [Reader.step, Blocks.openBlock, hw, (hmain : b.main = none), Blocks.goto]
  | bone hbone => simp [Reader.step, Blocks.continueBlock, hbone, Blocks.goto]
  | reset hempty hw => simp [Reader.step, Blocks.continueBlock, hempty, hw, Blocks.goto]
  | action hw => simp [Reader.step, Blocks.continueBlock, not_reset hw, action_ofWord?_iff.mpr hw, Blocks.goto]
  | @direction _ _ a d _ hw haxis =>
    have hd : (Direction.ofWord? w).filter (fun d => (a.axis? d).isSome) = some d :=
      Option.filter_eq_some_iff.mpr ⟨direction_ofWord?_iff.mpr hw, haxis⟩
    simp [Reader.step, Blocks.continueBlock, hd, Blocks.goto]
  | poseName | animationName | keyframePose | entry => rfl

/-- Where an action or a direction is due, the case of the letters does not matter. -/
theorem ReadsWord.recase (h : ReadsWord b w s old stage) (hw : sameWord w w')
    (hold : (∃ p st, old = some (.action p st)) ∨ ∃ p st a word, old = some (.direction p st a word)) :
    ReadsWord b w' s old stage := by
  have hsame {x : String} (hx : sameWord x w) : sameWord x w' := by
    rw [sameWord_iff] at *
    rw [hx, hw]
  cases h with
  | reset hempty hreset => exact .reset hempty (hsame hreset)
  | action ha => exact .action (hsame ha)
  | direction hd haxis => exact .direction (hsame hd) haxis
  | _ => rcases hold with ⟨p, st, ⟨⟩⟩ | ⟨p, st, a, word, ⟨⟩⟩

/-! ### All tokens -/

theorem exists_step (h : r.Accepts limits stop (t :: ts) D) :
    ∃ r', r.step limits t = .next r' ∧ r'.Accepts limits stop ts D := by
  have hstep := accepts_cons_iff.mp h
  cases hnext : r.step limits t with
  | next r' =>
    rw [hnext] at hstep
    exact ⟨r', rfl, hstep⟩
  | refuse e =>
    rw [hnext] at hstep
    cases hstep
  | reject e =>
    rw [hnext] at hstep
    cases hstep

theorem exists_readsWord (h : (Reader.mk b old).Accepts limits stop (⟨.ident w, s⟩ :: ts) D) :
    ∃ stage, ReadsWord b w s old stage ∧ (Reader.mk b (some stage)).Accepts limits stop ts D := by
  obtain ⟨r', hstep, h'⟩ := exists_step h
  obtain ⟨stage, rfl, hreads⟩ := readsWord_of_step hstep
  exact ⟨stage, hreads, h'⟩

/-- If a word is the last of the tokens before, the stage is one that a word leads to. -/
def CameBy (before : List Token) (r : Reader) : Prop :=
  ∀ front w s, before = front ++ [⟨.ident w, s⟩] → ∃ old stage, r.stage = some stage ∧ ReadsWord r.blocks w s old stage

/-- An action is read where an action is due. -/
theorem stage_of_action {w₂ : String} {s₂ s₃ : Span} {value : Float} (hreads : ReadsWord b w s old stage)
    (h : (Reader.mk b (some stage)).Accepts limits stop (⟨.ident w₂, s₂⟩ :: ⟨.number value, s₃⟩ :: ts) D) :
    ∃ p st, old = some (.action p st) := by
  obtain ⟨stage', hreads', h'⟩ := exists_readsWord h
  have hnumber := accepts_cons_iff.mp h'
  cases hreads with
  | action => exact ⟨_, _, rfl⟩
  | reset => exact ⟨_, _, rfl⟩
  | bone =>
    -- behind a bone the next word is an action or `reset`, and no number follows it
    cases hreads' with
    | reset => cases hnumber
    | action => cases hnumber
  | _ => cases hreads'

/-- A direction is read where a direction is due. -/
theorem stage_of_direction {s₂ : Span} {value : Float} (hreads : ReadsWord b w s old stage)
    (h : (Reader.mk b (some stage)).Accepts limits stop (⟨.number value, s₂⟩ :: ts) D) :
    ∃ p st a word, old = some (.direction p st a word) := by
  have hnumber := accepts_cons_iff.mp h
  cases hreads with
  | direction => exact ⟨_, _, _, _, rfl⟩
  | _ => cases hnumber

/-- Behind a word and in front of a semicolon, a word is read where an action is due. -/
theorem stage_of_reset {s₂ : Span} (hreads : ReadsWord b w s old stage)
    (hold : ∃ w₀ s₀ older last, old = some last ∧ ReadsWord b w₀ s₀ older last)
    (h : (Reader.mk b (some stage)).Accepts limits stop (⟨.semicolon, s₂⟩ :: ts) D) :
    ∃ p st, old = some (.action p st) := by
  have hsemicolon := accepts_cons_iff.mp h
  obtain ⟨w₀, s₀, older, last, rfl, hlast⟩ := hold
  cases hreads with
  | reset => exact ⟨_, _, rfl⟩
  | keyframePose => cases hlast
  | entry => cases hlast
  | _ => cases hsemicolon

/-- A word that may be in any case leads to the same stage in the other case. -/
theorem readsWord_recase (hplace : IsWordPlace before ⟨.ident w, s⟩ ts) (hw : sameWord w w')
    (hcame : CameBy before ⟨b, old⟩) (hreads : ReadsWord b w s old stage)
    (h : (Reader.mk b (some stage)).Accepts limits stop ts D) : ReadsWord b w' s old stage := by
  refine hreads.recase hw ?_
  cases hplace with
  | action hclause =>
    cases hclause
    exact .inl (stage_of_action hreads h)
  | direction hclause =>
    cases hclause
    exact .inr (stage_of_direction hreads h)
  | reset hstatement =>
    obtain ⟨w₀, -, s₀, -, s₂, rfl, -, rfl⟩ := exists_of_reset hstatement
    obtain ⟨older, last, hlast, hreads₀⟩ := hcame _ w₀ s₀ rfl
    exact .inl (stage_of_reset hreads ⟨w₀, s₀, older, last, hlast, hreads₀⟩ h)

/-- The reader reads words in any case alike. -/
theorem accepts_recased (h : Recased before ts ts') (hcame : CameBy before r) (hr : r.Accepts limits stop ts D) :
    r.Accepts limits stop ts' D := by
  induction h generalizing r with
  | nil => exact hr
  | @same before ts ts' t _ ih =>
    obtain ⟨r', hstep, hr'⟩ := exists_step hr
    rw [accepts_cons_iff, hstep]
    refine ih (fun front w s hlast => ?_) hr'
    obtain ⟨-, ht⟩ := List.append_inj' hlast rfl
    obtain rfl : t = ⟨.ident w, s⟩ := by simpa using ht
    obtain ⟨stage, rfl, hreads⟩ := readsWord_of_step hstep
    exact ⟨_, stage, rfl, hreads⟩
  | @word before ts ts' w w' s hplace hw _ ih =>
    obtain ⟨b, old⟩ := r
    obtain ⟨stage, hreads, hr'⟩ := exists_readsWord hr
    rw [accepts_cons_iff, step_of_readsWord (readsWord_recase hplace hw hcame hreads hr')]
    refine ih (fun front w₀ s₀ hlast => ?_) hr'
    obtain ⟨-, ht⟩ := List.append_inj' hlast rfl
    obtain ⟨rfl, rfl⟩ : w = w₀ ∧ s = s₀ := by simpa using ht
    exact ⟨_, stage, rfl, hreads⟩

end

/-! ### Texts -/

/-- The second text is the first with letters in the other case, all of them inside actions, directions and `reset`
of the tokens `ts`. -/
structure IsRecasing (ts : List Token) (source source' : String) : Prop where
  letters : sameWord source source'
  inside : ∀ i, source'.toList[i]? ≠ source.toList[i]? →
    ∃ before t after, ts = before ++ t :: after ∧ IsWordPlace before t after ∧
      t.span.start ≤ (placeAfter (source.toList.take i)).offset ∧
      (placeAfter (source.toList.take i)).offset < t.span.stop

/-- No two tokens of a text have a byte in common. -/
theorem eq_of_overlap {before before' after after' : List Token} {t t' : Token} {p : Nat}
    (hpairwise : (before ++ t :: after).Pairwise fun t u => t.span.stop ≤ u.span.start)
    (h : before ++ t :: after = before' ++ t' :: after') (ht : t.span.start ≤ p ∧ p < t.span.stop)
    (ht' : t'.span.start ≤ p ∧ p < t'.span.stop) : before = before' ∧ t = t' ∧ after = after' := by
  have hearlier {front mid back : List Token} {u v : Token}
      (hp : (front ++ u :: (mid ++ v :: back)).Pairwise fun t u => t.span.stop ≤ u.span.start) :
      u.span.stop ≤ v.span.start := by
    have hcons := (List.pairwise_append.mp hp).2.1
    exact List.rel_of_pairwise_cons hcons (by simp)
  rcases List.append_eq_append_iff.mp h with ⟨mid, rfl, hmid⟩ | ⟨mid, rfl, hmid⟩
  · cases mid with
    | nil =>
      obtain ⟨rfl, rfl⟩ := List.cons.inj hmid
      exact ⟨by simp, rfl, rfl⟩
    | cons u mid =>
      obtain ⟨rfl, rfl⟩ := List.cons.inj hmid
      have hle := hearlier hpairwise
      omega
  · cases mid with
    | nil =>
      obtain ⟨rfl, rfl⟩ := List.cons.inj hmid
      exact ⟨by simp, rfl, rfl⟩
    | cons u mid =>
      obtain ⟨rfl, rfl⟩ := List.cons.inj hmid
      rw [List.append_assoc] at hpairwise
      have hle := hearlier hpairwise
      omega

/-- Tokens that differ only where a word may be in any case. -/
theorem recased_of_forall₂ {cs cs' : List Char} {before ts ts' : List Token}
    (h : List.Forall₂ (Recases cs cs') ts ts')
    (hplace : ∀ front t after, before ++ ts = front ++ t :: after → DiffersIn cs cs' t.span →
      IsWordPlace front t after) :
    Recased before ts ts' := by
  induction h generalizing before with
  | nil => exact .nil
  | @cons t t' ts ts' ht _ ih =>
    have hrest : Recased (before ++ [t]) ts ts' := ih (by simpa using hplace)
    by_cases hsame : t' = t
    · subst hsame
      exact .same hrest
    · have hword := hplace before t ts rfl (ht.differs hsame)
      obtain ⟨w, s, rfl⟩ := hword.exists_word
      obtain ⟨kind', s'⟩ := t'
      obtain ⟨rfl, hkind, -⟩ := ht
      cases hkind with
      | ident hw => exact .word hword hw hrest
      | refl => exact absurd rfl hsame

theorem sameLetters_of_sameWord {a b : String} (h : sameWord a b) : SameLetters a.toList b.toList :=
  (sameWord_iff.mp h).symm

theorem utf8ByteSize_recase {source source' : String} (h : sameWord source source') :
    source'.utf8ByteSize = source.utf8ByteSize := by
  simpa [placeAfter] using congrArg Position.offset (sameLetters_of_sameWord h).placeAfter_eq

/-- **Actions, directions and `reset` may be in any case.** Let a text be read as a document. If letters inside its
actions, directions and words `reset` are put in the other case, any of them, the text is read as the same document,
places included. -/
theorem parse_recased {limits : InputLimits} {source : String} {D : Document} (h : parse limits source = .ok D) :
    ∃ ts, tokenize source = .ok ts ∧
      ∀ source', IsRecasing ts.list source source' → parse limits source' = .ok D := by
  unfold parse at h
  split at h
  · cases h
  next hsize =>
    split at h
    next ts hts =>
      refine ⟨ts, hts, fun source' hrecasing => ?_⟩
      obtain ⟨hsplits, hstop⟩ := lex_eq_ok_iff.mp (tokenize_eq_ok.mp hts)
      have hletters := sameLetters_of_sameWord hrecasing.letters
      obtain ⟨tokens', hsplits', htokens⟩ :
          ∃ tokens', Splits [] source'.toList tokens' ∧
            List.Forall₂ (Recases source.toList source'.toList) ts.list tokens' := hsplits.recase rfl hletters
      have hts' : tokenize source' = .ok ⟨tokens', ts.stop⟩ := by
        refine tokenize_eq_ok.mpr (lex_eq_ok_iff.mpr ⟨hsplits', ?_⟩)
        rw [hletters.placeAfter_eq, hstop]
      have hrecased : Recased [] ts.list tokens' := by
        refine recased_of_forall₂ htokens ?_
        rintro front t after hsplit ⟨i, hi, hspan⟩
        obtain ⟨front', t', after', hsplit', hplace, hspan'⟩ := hrecasing.inside i hi
        obtain ⟨rfl, rfl, rfl⟩ := eq_of_overlap (hsplit ▸ hsplits.bounds.2) (hsplit.symm.trans hsplit') hspan hspan'
        exact hplace
      rw [parse_of_tokenize hts' (by rw [utf8ByteSize_recase hrecasing.letters]; omega)]
      exact accepts_recased hrecased (by simp [CameBy]) h
    next => cases h

/-- One word in another case. -/
theorem isRecasing_of_word {before after : List Token} {t : Token} {front text text' back : String}
    (hplace : IsWordPlace before t after) (hspan : t.span = spanOf front.toList text.toList)
    (htext : sameWord text text') :
    IsRecasing (before ++ t :: after) (front ++ text ++ back) (front ++ text' ++ back) := by
  refine ⟨?_, fun i hi => ⟨before, t, after, rfl, hplace, ?_⟩⟩
  · simp only [sameWord_iff, String.toList_append, List.map_append, sameWord_iff.mp htext]
  · simp only [String.toList_append] at hi ⊢
    rw [hspan]
    exact offset_of_ne (sameLetters_of_sameWord htext).length_eq hi

/-- A pose that has the name of its action. -/
def bendSource (action : String) : String := "@pose bend\x7bneck " ++ action ++ " forward 9;\x7d"

/-- The action may be in capitals, and the name stays. -/
theorem parse_bendSource :
    ∃ ts D, tokenize (bendSource "bend") = .ok ts ∧ parse {} (bendSource "bend") = .ok D ∧
      IsRecasing ts.list (bendSource "bend") (bendSource "BEND") ∧ parse {} (bendSource "BEND") = .ok D := by
  let before : List Token := [⟨.keyword "pose", ⟨0, 5, 1, 1⟩⟩, ⟨.ident "bend", ⟨6, 10, 1, 7⟩⟩,
    ⟨.openBrace, ⟨10, 11, 1, 11⟩⟩, ⟨.ident "neck", ⟨11, 15, 1, 12⟩⟩]
  let word : Token := ⟨.ident "bend", ⟨16, 20, 1, 17⟩⟩
  let after : List Token := [⟨.ident "forward", ⟨21, 28, 1, 22⟩⟩, ⟨.number 9.0, ⟨29, 30, 1, 30⟩⟩,
    ⟨.semicolon, ⟨30, 31, 1, 31⟩⟩, ⟨.closeBrace, ⟨31, 32, 1, 32⟩⟩]
  let D : Document := { poses := [("bend", ⟨"bend",
    [⟨.neck, .actions [⟨.bend, .forward, 9.0, ⟨16, 20, 1, 17⟩⟩], ⟨11, 15, 1, 12⟩⟩], ⟨0, 5, 1, 1⟩⟩)] }
  have hts : tokenize (bendSource "bend") = .ok ⟨before ++ word :: after, ⟨32, 1, 33⟩⟩ := by decide +kernel
  have hD : parse {} (bendSource "bend") = .ok D := by decide +kernel
  have hplace : IsWordPlace before word after :=
    .action (.mk (a := .bend) (d := .forward) (sameWord_self _) (sameWord_self _) rfl)
  have hrecasing : IsRecasing (before ++ word :: after) (bendSource "bend") (bendSource "BEND") :=
    isRecasing_of_word hplace (by decide +kernel) (by decide +kernel)
  obtain ⟨ts, hts', hparse⟩ := parse_recased hD
  obtain rfl := Except.ok.inj (hts.symm.trans hts')
  exact ⟨_, D, hts, hD, hrecasing, hparse _ hrecasing⟩

end PoseLang
