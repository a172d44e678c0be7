import PoseLang.Proofs.Token.Lexer

/-!
# Blanks and comments between tokens

Where a token begins or ends, and at the end of the text, blanks and comments may be put in without a change to the
tokens, other than to their places. The comments that are put in have to end with their line (`IsClosedTrivia`).
They may come behind a comment that the text does not end: then what is put in goes on with that comment, up to its
first line feed (`IsClosedTrivia.exists_line`).

What is proved:

* blanks and comments may be put in front of others (`IsClosedTrivia.append`) and behind them
  (`IsTrivia.append_closed`);
* what is put in ends no lexeme too late: no lexeme goes on with a blank, `#` or `/` (`Spells.longest_of_head?`);
* so a text is cut into tokens of the same kinds with them and without (`Splits.insert`).
-/

namespace PoseLang

namespace Lexical

/-- Blanks and comments, each comment with the line feed behind it. -/
inductive IsClosedTrivia : List Char → Prop
  | nil : IsClosedTrivia []
  | blank {c : Char} {gap : List Char} : isBlank c = true → IsClosedTrivia gap → IsClosedTrivia (c :: gap)
  | comment {opening body gap : List Char} : opening ∈ [['#'], ['/', '/']] → '\n' ∉ body → IsClosedTrivia gap →
      IsClosedTrivia (opening ++ body ++ '\n' :: gap)

/-! ### Blanks and comments in a row -/

section

variable {inserted gap rest : List Char}

theorem isBlank_newline : isBlank '\n' = true := by decide

theorem IsClosedTrivia.append (h : IsClosedTrivia inserted) (hgap : IsTrivia rest gap) :
    IsTrivia rest (inserted ++ gap) := by
  induction h with
  | nil => exact hgap
  | blank hc _ ih => exact .blank hc ih
  | comment hopening hbody _ ih =>
    rw [List.append_assoc]
    exact .comment hopening hbody (by simp) (.blank isBlank_newline ih)

/-- The rest of the first line, and blanks and comments behind it. -/
theorem IsClosedTrivia.exists_line (h : IsClosedTrivia inserted) :
    ∃ line more, inserted = line ++ more ∧ '\n' ∉ line ∧ (∀ c ∈ more.head?, c = '\n') ∧ IsClosedTrivia more := by
  induction h with
  | nil => exact ⟨[], [], rfl, by simp, by simp, .nil⟩
  | @blank c gap hc hgap ih =>
    by_cases hline : c = '\n'
    · exact ⟨[], c :: gap, rfl, by simp, by simp [hline], .blank hc hgap⟩
    · obtain ⟨line, more, rfl, hnewline, hmore, hclosed⟩ := ih
      exact ⟨c :: line, more, rfl, by simpa using ⟨Ne.symm hline, hnewline⟩, hmore, hclosed⟩
  | @comment opening body gap hopening hbody hgap _ =>
    refine ⟨opening ++ body, '\n' :: gap, rfl, ?_, by simp, .blank isBlank_newline hgap⟩
    simp only [List.mem_cons, List.not_mem_nil, or_false] at hopening
    rcases hopening with rfl | rfl <;> simpa using hbody

theorem IsTrivia.append_closed (hgap : IsTrivia rest gap) (h : IsClosedTrivia inserted) :
    IsTrivia rest (gap ++ inserted) := by
  induction hgap with
  | nil => simpa using h.append (.nil : IsTrivia rest [])
  | blank hc _ ih => exact .blank hc ih
  | @comment opening body gap hopening hbody hstop _ ih =>
    cases gap with
    | nil =>
      -- a comment that was not ended goes on with what is put in
      obtain ⟨line, more, rfl, hline, hmore, hclosed⟩ := h.exists_line
      have htrivia : IsTrivia rest more := by simpa using hclosed.append (.nil : IsTrivia rest [])
      have hlong : '\n' ∉ body ++ line := by simpa using ⟨hbody, hline⟩
      have hhead : ∀ c ∈ (more ++ rest).head?, c = '\n' := by
        cases more with
        | nil => exact hstop
        | cons d more => exact hmore
      simpa using IsTrivia.comment hopening hlong hhead htrivia
    | cons d gap =>
      rw [List.append_assoc]
      exact .comment hopening hbody hstop ih

end

/-! ### Where lexemes end -/

theorem not_isBlank_of_isNameChar {c : Char} (h : isNameChar c = true) : isBlank c = false := by
  refine not_isBlank_of_bounds (bounds_of_isNameStart ?_)
  simp only [isNameChar, Char.isAlphanum, Bool.or_eq_true] at h
  simp only [isNameStart, Bool.or_eq_true]
  tauto

theorem isNameChar_of_isDigit {c : Char} (h : c.isDigit = true) : isNameChar c = true := by
  simp [isNameChar, Char.isAlphanum, h]

/-- No lexeme goes on with what is put in. -/
theorem IsClosedTrivia.head? {inserted : List Char} (h : IsClosedTrivia inserted) :
    ∀ c ∈ inserted.head?, isNameChar c = false ∧ c ≠ '.' := by
  cases h with
  | nil => exact nofun
  | @blank c _ hc _ =>
    rintro _ ⟨⟩
    constructor
    · by_contra hname
      rw [not_isBlank_of_isNameChar (eq_true_of_ne_false hname)] at hc
      cases hc
    · rintro rfl
      exact absurd hc (by decide)
  | comment hopening _ _ =>
    simp only [List.mem_cons, List.not_mem_nil, or_false] at hopening
    rcases hopening with rfl | rfl <;> rintro _ ⟨⟩ <;> decide

/-- A longest lexeme stays the longest if what comes next cannot go on with it. -/
theorem Spells.longest_of_head? {text rest rest' : List Char} {kind : TokenKind} (h : Spells text kind)
    (hlongest : Longest text rest) (hpoint : '.' ∉ rest.head?) (hpoint' : '.' ∉ rest'.head?)
    (hhead : ∀ c ∈ rest'.head?, c ∈ rest.head? ∨ isNameChar c = false) : Longest text rest' := by
  have hdigit (hrest : ∀ c ∈ rest.head?, c.isDigit = false) : ∀ c ∈ rest'.head?, c.isDigit = false := by
    intro c hc
    rcases hhead c hc with hmem | hname
    · exact hrest c hmem
    · by_contra hdigit
      rw [isNameChar_of_isDigit (eq_true_of_ne_false hdigit)] at hname
      cases hname
  have hname (hrest : ∀ c ∈ rest.head?, isNameChar c = false) : ∀ c ∈ rest'.head?, isNameChar c = false :=
    fun c hc => (hhead c hc).elim (hrest c) id
  cases h with
  | keyword hword => exact (longest_keyword_iff hword).mpr (hname ((longest_keyword_iff hword).mp hlongest))
  | ident hident => exact (longest_name_iff hident).mpr (hname ((longest_name_iff hident).mp hlongest))
  | number hnumeral _ =>
    cases hnumeral with
    | whole hw => exact (longest_whole_iff hw hpoint').mpr (hdigit ((longest_whole_iff hw hpoint).mp hlongest))
    | point hw hf => exact (longest_point_iff hw hf).mpr (hdigit ((longest_point_iff hw hf).mp hlongest))
  | openBrace | closeBrace | colon | semicolon | comma => exact longest_mark rfl

/-! ### The whole text -/

section

variable {before cs inserted : List Char} {tokens : List Token}

/-- Elsewhere a text has tokens of the same kinds. -/
theorem Splits.elsewhere (h : Splits before cs tokens) (before' : List Char) :
    ∃ tokens', Splits before' cs tokens' ∧ tokens'.map Token.kind = tokens.map Token.kind := by
  induction h generalizing before' with
  | stop hgap => exact ⟨[], .stop hgap, rfl⟩
  | @token before gap text rest kind tokens hgap hspells hlongest _ ih =>
    obtain ⟨tokens', hsplits, hkinds⟩ := ih (before' ++ gap ++ text)
    exact ⟨_, .token hgap hspells hlongest hsplits, congrArg (kind :: ·) hkinds⟩

/-- Blanks and comments in front of a text. -/
theorem Splits.prepend (h : Splits before cs tokens) (hinserted : IsClosedTrivia inserted) :
    ∃ tokens', Splits before (inserted ++ cs) tokens' ∧ tokens'.map Token.kind = tokens.map Token.kind := by
  cases h with
  | stop hgap => exact ⟨[], .stop (hinserted.append hgap), rfl⟩
  | @token _ gap text rest kind tokens hgap hspells hlongest hsplits =>
    obtain ⟨tokens', hsplits, hkinds⟩ := hsplits.elsewhere (before ++ (inserted ++ gap) ++ text)
    have htoken := Splits.token (hinserted.append hgap) hspells hlongest hsplits
    rw [List.append_assoc, List.append_assoc, ← List.append_assoc gap] at htoken
    exact ⟨_, htoken, congrArg (kind :: ·) hkinds⟩

/-- A token stays if blanks and comments are put in somewhere behind it. -/
theorem Splits.token_insert {gap text front back : List Char} {kind : TokenKind} (hinserted : IsClosedTrivia inserted)
    (hgap : IsTrivia (text ++ (front ++ back)) gap) (hspells : Spells text kind)
    (hlongest : Longest text (front ++ back))
    (hpoint : '.' ∉ (front ++ back).head?)
    (h : Splits (before ++ gap ++ text) (front ++ inserted ++ back) tokens) :
    Splits before (gap ++ text ++ front ++ inserted ++ back) (⟨kind, spanOf (before ++ gap) text⟩ :: tokens) := by
  have hhead : ∀ c ∈ (front ++ inserted ++ back).head?, c ∈ (front ++ back).head? ∨ isNameChar c = false := by
    intro c hc
    cases front with
    | cons d front => exact .inl hc
    | nil =>
      cases inserted with
      | nil => exact .inl hc
      | cons d inserted => exact .inr (hinserted.head? c hc).1
  have hgap' : IsTrivia (text ++ (front ++ inserted ++ back)) gap := by
    refine hgap.of_head? fun c hc => ?_
    obtain ⟨d, ds, rfl, -⟩ := hspells.isLexeme.exists_start
    exact hc
  have htoken := Splits.token hgap' hspells
    (hspells.longest_of_head? hlongest hpoint h.head?_ne_point hhead) h
  simpa using htoken

/-- A number of bytes cuts a text in one way. -/
theorem eq_of_offset_eq {front back front' back' : List Char} (h : front ++ back = front' ++ back')
    (hoffset : (placeAfter front).offset = (placeAfter front').offset) : front = front' ∧ back = back' := by
  have hnil {more : List Char} {n : Nat} (hmore : n = n + (String.ofList more).utf8ByteSize) : more = [] := by
    by_contra hne
    have hpos := utf8ByteSize_pos hne
    omega
  rcases List.append_eq_append_iff.mp h with ⟨more, rfl, rfl⟩ | ⟨more, rfl, rfl⟩
  · rw [offset_append] at hoffset
    simp [hnil hoffset]
  · rw [offset_append] at hoffset
    simp [hnil hoffset.symm]

/-- A place in a text where one of its tokens begins or ends, or the text does. -/
def IsBoundary (tokens : List Token) (stop p : Nat) : Prop :=
  (∃ t ∈ tokens, p = t.span.start ∨ p = t.span.stop) ∨ p = stop

/-- **Blanks and comments may stand between any two tokens.** Where a token begins or ends, and at the end of the text,
they may be put in, and the text has tokens of the same kinds. -/
theorem Splits.insert (h : Splits before cs tokens) {p : Nat}
    (hp : IsBoundary tokens (placeAfter (before ++ cs)).offset p) :
    ∃ front back, cs = front ++ back ∧ (placeAfter (before ++ front)).offset = p ∧
      ∀ inserted, IsClosedTrivia inserted → ∃ tokens', Splits before (front ++ inserted ++ back) tokens' ∧
        tokens'.map Token.kind = tokens.map Token.kind := by
  induction h with
  | @stop before gap hgap =>
    obtain ⟨-, ⟨⟩, -⟩ | rfl := hp
    refine ⟨gap, [], by simp, rfl, fun inserted hinserted => ⟨[], ?_, rfl⟩⟩
    rw [List.append_nil]
    exact .stop (hgap.append_closed hinserted)
  | @token before gap text rest kind tokens hgap hspells hlongest hsplits ih =>
    have hlater : IsBoundary tokens (placeAfter (before ++ gap ++ text ++ rest)).offset p →
        ∃ front back, gap ++ text ++ rest = front ++ back ∧ (placeAfter (before ++ front)).offset = p ∧
          ∀ inserted, IsClosedTrivia inserted → ∃ tokens', Splits before (front ++ inserted ++ back) tokens' ∧
            tokens'.map Token.kind = kind :: tokens.map Token.kind := by
      intro hp
      obtain ⟨front, back, rfl, hoffset, hinsert⟩ := ih hp
      refine ⟨gap ++ text ++ front, back, by simp, by simpa using hoffset, fun inserted hinserted => ?_⟩
      obtain ⟨tokens', hsplits', hkinds⟩ := hinsert inserted hinserted
      exact ⟨_, .token_insert hinserted hgap hspells hlongest hsplits.head?_ne_point hsplits',
        congrArg (kind :: ·) hkinds⟩
    rcases hp with ⟨t, ht, hp⟩ | rfl
    · rcases List.mem_cons.mp ht with rfl | ht
      · rcases hp with rfl | rfl
        · -- in front of the token
          refine ⟨gap, text ++ rest, by simp, rfl, fun inserted hinserted => ?_⟩
          obtain ⟨tokens', hsplits', hkinds⟩ := hsplits.elsewhere (before ++ (gap ++ inserted) ++ text)
          have htoken := Splits.token (hgap.append_closed hinserted) hspells hlongest hsplits'
          rw [List.append_assoc (gap ++ inserted)] at htoken
          exact ⟨_, htoken, congrArg (kind :: ·) hkinds⟩
        · -- right behind the token
          refine ⟨gap ++ text, rest, rfl, by simp [spanOf], fun inserted hinserted => ?_⟩
          obtain ⟨tokens', hsplits', hkinds⟩ := hsplits.prepend hinserted
          have htoken := @Splits.token_insert _ _ _ _ _ [] _ _ hinserted hgap hspells hlongest
            hsplits.head?_ne_point hsplits'
          rw [List.append_nil] at htoken
          exact ⟨_, htoken, congrArg (kind :: ·) hkinds⟩
      · exact hlater (.inl ⟨t, ht, hp⟩)
    · exact hlater (.inr (by simp))

end

end Lexical

end PoseLang
