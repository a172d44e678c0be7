import PoseLang.Document.Reader
import PoseLang.Proofs.Token.Lexical

/-!
# Cutting a text into tokens

The lexer reads a text once, from left to right, with one character of lookahead. It cuts the text as the
lexical grammar says (`tokenize_eq_ok_iff`): it has an answer if and only if the text can be cut so,
and then the tokens are those of the only way to cut it.

What is proved:

* a lexeme that is read is the longest one (`of_lexeme`), and the longest one is read (`lexeme_of`),
  unless a point follows digits, which nothing may begin with;
* what is skipped is blanks and comments, all of them (`of_skipTrivia`, `skipTrivia_of`);
* the counters of bytes, lines and columns say where the reader is (`advance_start`).
-/

namespace PoseLang

namespace Lexical

/-! ### Classes of characters -/

section Runs

variable {p : Char → Bool} {run rest : List Char}

theorem takeWhile_run (hrun : ∀ c ∈ run, p c = true) (hrest : ∀ c ∈ rest.head?, p c = false) :
    (run ++ rest).takeWhile p = run := by
  rw [List.takeWhile_append_of_pos hrun]
  cases rest with
  | nil => simp
  | cons c rest => simp [hrest c rfl]

theorem dropWhile_run (hrun : ∀ c ∈ run, p c = true) (hrest : ∀ c ∈ rest.head?, p c = false) :
    (run ++ rest).dropWhile p = rest := by
  rw [List.dropWhile_append_of_pos hrun]
  cases rest with
  | nil => simp
  | cons c rest => simp [hrest c rfl]

theorem head?_dropWhile (p : Char → Bool) (cs : List Char) : ∀ c ∈ (cs.dropWhile p).head?, p c = false := by
  intro c hc
  have hnot := List.head?_dropWhile_not p cs
  rw [hc] at hnot
  exact hnot

end Runs

theorem isAlpha_iff {c : Char} :
    c.isAlpha = true ↔ 65 ≤ c.toNat ∧ c.toNat ≤ 90 ∨ 97 ≤ c.toNat ∧ c.toNat ≤ 122 := by
  have hupper : c.isUpper = true ↔ 65 ≤ c.toNat ∧ c.toNat ≤ 90 :=
    decide_eq_true_iff.trans (and_congr UInt32.le_iff_toNat_le UInt32.le_iff_toNat_le)
  have hlower : c.isLower = true ↔ 97 ≤ c.toNat ∧ c.toNat ≤ 122 :=
    Bool.and_eq_true_iff.trans (and_congr (decide_eq_true_iff.trans UInt32.le_iff_toNat_le)
      (decide_eq_true_iff.trans UInt32.le_iff_toNat_le))
  rw [← hupper, ← hlower]
  exact Bool.or_eq_true_iff

theorem isNameStart_iff {c : Char} :
    isNameStart c = true ↔ 65 ≤ c.toNat ∧ c.toNat ≤ 90 ∨ 97 ≤ c.toNat ∧ c.toNat ≤ 122 ∨ c.toNat = 95 := by
  rw [isNameStart, Bool.or_eq_true, isAlpha_iff, decide_eq_true_iff, ← Char.toNat_inj, or_assoc]
  rfl

theorem not_isDigit_of_isNameStart {c : Char} (h : isNameStart c = true) : c.isDigit = false := by
  rw [isNameStart_iff] at h
  rw [← Bool.not_eq_true, Char.isDigit_iff_toNat]
  show ¬(48 ≤ c.toNat ∧ c.toNat ≤ 57)
  omega

theorem mark?_eq_none {c : Char} (h : isNameStart c = true ∨ c.isDigit = true ∨ c = '@') : mark? c = none := by
  unfold mark?
  split <;> first | rfl | (rcases h with h | h | h <;> cases h)

theorem spells_mark {c : Char} {kind : TokenKind} (h : mark? c = some kind) : Spells [c] kind := by
  unfold mark? at h
  split at h <;> cases h <;> constructor

/-! ### The longest lexeme -/

theorem longest_iff {text rest : List Char} :
    Longest text rest ↔ ∀ c more, c :: more <+: rest → ¬ IsLexeme (text ++ c :: more) := by
  constructor
  · intro h c more hmore hlexeme
    have hle := h _ ((List.prefix_append_right_inj text).mpr hmore) hlexeme
    simp at hle
  · intro h longer hlonger hlexeme
    by_contra hlt
    obtain ⟨more, rfl⟩ := List.prefix_of_prefix_length_le (List.prefix_append text rest) hlonger (by omega)
    cases more with
    | nil => simp at hlt
    | cons c more => exact h c more ((List.prefix_append_right_inj text).mp hlonger) hlexeme

section FirstCharacter

variable {c : Char} {cs : List Char}

theorem IsDigits.head (h : IsDigits (c :: cs)) : c.isDigit = true := h.2 c List.mem_cons_self

theorem IsNumeral.exists_cons {text : List Char} {q : ℚ} (h : IsNumeral text q) :
    ∃ d ds, text = d :: ds ∧ d.isDigit = true := by
  cases h with
  | whole h =>
    obtain ⟨d, ds, rfl⟩ := List.exists_cons_of_ne_nil h.1
    exact ⟨d, ds, rfl, h.head⟩
  | point h =>
    obtain ⟨d, ds, rfl⟩ := List.exists_cons_of_ne_nil h.1
    exact ⟨d, _, rfl, h.head⟩

theorem IsNumeral.head {q : ℚ} (h : IsNumeral (c :: cs) q) : c.isDigit = true := by
  obtain ⟨d, ds, heq, hd⟩ := h.exists_cons
  cases heq
  exact hd

theorem IsLexeme.word (h : IsLexeme ('@' :: cs)) : IsWord cs := by
  cases h with
  | keyword h => exact h
  | name h =>
    obtain ⟨h, -⟩ := h
    exact absurd h (by decide)
  | number h => exact absurd h.head (by decide)
  | mark h => exact absurd h (by decide)

theorem IsLexeme.name_tail (h : IsLexeme (c :: cs)) (hc : isNameStart c = true) : ∀ d ∈ cs, isNameChar d = true := by
  cases h with
  | keyword => exact absurd hc (by decide)
  | name h =>
    obtain ⟨-, h⟩ := h
    exact h
  | number h => exact absurd h.head (by simp [not_isDigit_of_isNameStart hc])
  | mark => exact nofun

theorem IsLexeme.numeral (h : IsLexeme (c :: cs)) (hc : c.isDigit = true) : ∃ q, IsNumeral (c :: cs) q := by
  cases h with
  | keyword => exact absurd hc (by decide)
  | name h =>
    obtain ⟨h, -⟩ := h
    exact absurd hc (by simp [not_isDigit_of_isNameStart h])
  | number h => exact ⟨_, h⟩
  | mark h =>
    simp only [List.mem_cons, List.not_mem_nil, or_false] at h
    rcases h with rfl | rfl | rfl | rfl | rfl <;> exact absurd hc (by decide)

theorem IsLexeme.mark_tail {kind : TokenKind} (h : IsLexeme (c :: cs)) (hc : mark? c = some kind) : cs = [] := by
  cases h with
  | keyword => cases hc
  | name h =>
    obtain ⟨h, -⟩ := h
    rw [mark?_eq_none (.inl h)] at hc
    cases hc
  | number h =>
    rw [mark?_eq_none (.inr (.inl h.head))] at hc
    cases hc
  | mark => rfl

end FirstCharacter

theorem IsDigits.concat {whole : List Char} {c : Char} (h : IsDigits whole) (hc : c.isDigit = true) :
    IsDigits (whole ++ [c]) := by
  refine ⟨by simp, ?_⟩
  simpa [or_imp, forall_and, hc] using h.2

theorem IsNumeral.digits_or_point {text : List Char} {q : ℚ} (h : IsNumeral text q) :
    IsDigits text ∨ ∃ w fraction, IsDigits w ∧ IsDigits fraction ∧ text = w ++ '.' :: fraction := by
  cases h with
  | whole h => exact .inl h
  | point h h' => exact .inr ⟨_, _, h, h', rfl⟩

theorem IsLexeme.digits_or_point {whole more : List Char} (hw : IsDigits whole) (h : IsLexeme (whole ++ more)) :
    IsDigits (whole ++ more) ∨
      ∃ w fraction, IsDigits w ∧ IsDigits fraction ∧ whole ++ more = w ++ '.' :: fraction := by
  obtain ⟨d, ds, rfl⟩ := List.exists_cons_of_ne_nil hw.1
  obtain ⟨q, hq⟩ := IsLexeme.numeral h hw.head
  exact hq.digits_or_point

/-- Digits end where something else follows. -/
theorem eq_of_point {w w' rest fraction : List Char} {c : Char} (hw : ∀ d ∈ w, d.isDigit = true)
    (hw' : ∀ d ∈ w', d.isDigit = true) (hc : c.isDigit = false) (h : w ++ c :: rest = w' ++ '.' :: fraction) :
    w = w' ∧ c = '.' ∧ rest = fraction := by
  have htake := congrArg (List.takeWhile Char.isDigit) h
  rw [takeWhile_run hw (by simpa using hc), takeWhile_run hw' (by simp)] at htake
  subst htake
  simpa using h

section Longest

variable {rest : List Char}

/-- A lexeme that goes on with the characters of one class ends where the class ends. -/
theorem longest_iff_of_class {p : Char → Bool} {text : List Char} (hgoes : ∀ c, p c = true → IsLexeme (text ++ [c]))
    (honly : ∀ c more, c ∈ rest.head? → IsLexeme (text ++ c :: more) → p c = true) :
    Longest text rest ↔ ∀ c ∈ rest.head?, p c = false := by
  rw [longest_iff]
  constructor
  · intro h c hc
    by_contra hp
    rw [Bool.not_eq_false] at hp
    obtain ⟨rest', rfl⟩ := List.head?_eq_some_iff.mp hc
    exact h c [] (List.prefix_append [c] rest') (hgoes c hp)
  · rintro h c more ⟨rest', rfl⟩ hlexeme
    have hp := honly c more rfl hlexeme
    rw [h c rfl] at hp
    cases hp

theorem longest_keyword_iff {word : List Char} (h : IsWord word) :
    Longest ('@' :: word) rest ↔ ∀ c ∈ rest.head?, isNameChar c = false := by
  refine longest_iff_of_class (fun c hc => .keyword ⟨by simp, ?_⟩) fun c more _ hlexeme => ?_
  · simpa [or_imp, forall_and, hc] using h.2
  · exact hlexeme.word.2 c (by simp)

theorem longest_name_iff {text : List Char} (h : IsName text) :
    Longest text rest ↔ ∀ c ∈ rest.head?, isNameChar c = false := by
  obtain ⟨hstart, hall⟩ := h
  refine longest_iff_of_class (fun c hc => .name (.mk hstart ?_)) fun c more _ hlexeme => ?_
  · simpa [or_imp, forall_and, hc] using hall
  · exact IsLexeme.name_tail hlexeme hstart c (by simp)

theorem longest_mark {c : Char} {kind : TokenKind} (h : mark? c = some kind) : Longest [c] rest := by
  refine (longest_iff_of_class (p := fun _ => false) (fun _ => nofun) fun d more _ hlexeme => ?_).mpr fun _ _ => rfl
  cases hlexeme.mark_tail h

theorem longest_point_iff {whole fraction : List Char} (hw : IsDigits whole) (hf : IsDigits fraction) :
    Longest (whole ++ '.' :: fraction) rest ↔ ∀ c ∈ rest.head?, c.isDigit = false := by
  refine longest_iff_of_class (fun c hc => ?_) fun c more _ hlexeme => ?_
  · rw [List.append_assoc]
    exact .number (.point hw (hf.concat hc))
  · rw [List.append_assoc] at hlexeme
    rcases hlexeme.digits_or_point hw with h | ⟨w, f, hw', hf', h⟩
    · exact absurd (h.2 '.' (by simp)) (by decide)
    · obtain ⟨rfl, -, rfl⟩ := eq_of_point hw.2 hw'.2 (by decide) h
      exact hf'.2 c (by simp)

theorem longest_whole_iff {whole : List Char} (h : IsDigits whole) (hpoint : '.' ∉ rest.head?) :
    Longest whole rest ↔ ∀ c ∈ rest.head?, c.isDigit = false := by
  refine longest_iff_of_class (fun c hc => .number (.whole (h.concat hc))) fun c more hc hlexeme => ?_
  by_contra hdigit
  rw [Bool.not_eq_true] at hdigit
  rcases hlexeme.digits_or_point h with hall | ⟨w, f, hw', hf', heq⟩
  · exact absurd (hall.2 c (by simp)) (by simp [hdigit])
  · obtain ⟨-, rfl, -⟩ := eq_of_point h.2 hw'.2 hdigit heq
    exact hpoint hc

end Longest

/-! ### One lexeme -/

theorem numberLexeme_eq_ok_iff {whole fraction text rest : List Char} {kind : TokenKind} :
    numberLexeme (decimalValue whole fraction) text rest = .ok ⟨kind, text, rest⟩ ↔
      ∃ value, RoundsTo (decimalNumber whole fraction) value ∧ kind = .number value := by
  unfold numberLexeme
  constructor
  · intro h
    split at h
    next hfinite =>
      cases h
      exact ⟨_, roundsTo_iff.mpr ⟨rfl, hfinite⟩, rfl⟩
    · cases h
  · rintro ⟨value, hvalue, rfl⟩
    obtain ⟨rfl, hfinite⟩ := roundsTo_iff.mp hvalue
    rw [if_pos hfinite]

theorem of_lexNumber {c : Char} {cs : List Char} {l : Lexeme} (hc : c.isDigit = true)
    (h : lexNumber (c :: cs) = .ok l) : Spells l.text l.kind ∧ Longest l.text l.rest := by
  have hwhole : IsDigits ((c :: cs).takeWhile Char.isDigit) :=
    ⟨by simp [hc], fun _ => List.mem_takeWhile_imp⟩
  have hstop := head?_dropWhile Char.isDigit (c :: cs)
  unfold lexNumber at h
  split at h
  next rest hrest =>
    split at h
    · cases h
    next d ds hds =>
      have hfraction : IsDigits (d :: ds) := ⟨by simp, fun _ hd => List.mem_takeWhile_imp (hds ▸ hd)⟩
      obtain rfl := numberLexeme_eq_ok h
      obtain ⟨value, hvalue, hkind⟩ := numberLexeme_eq_ok_iff.mp h
      exact ⟨hkind ▸ .number (.point hwhole hfraction) hvalue,
        (longest_point_iff hwhole hfraction).mpr (head?_dropWhile _ rest)⟩
  next hpoint =>
    obtain rfl := numberLexeme_eq_ok h
    obtain ⟨value, hvalue, hkind⟩ := numberLexeme_eq_ok_iff.mp h
    have hpoint : '.' ∉ ((c :: cs).dropWhile Char.isDigit).head? := by
      intro hhead
      obtain ⟨rest, hrest⟩ := List.head?_eq_some_iff.mp hhead
      exact hpoint rest hrest
    exact ⟨hkind ▸ .number (.whole hwhole) hvalue, (longest_whole_iff hwhole hpoint).mpr hstop⟩

/-- What is read is the longest lexeme. -/
theorem of_lexeme {c : Char} {cs : List Char} {l : Lexeme} (h : lexeme c cs = .ok l) :
    Spells l.text l.kind ∧ Longest l.text l.rest := by
  unfold lexeme at h
  split at h
  next kind hmark =>
    cases h
    exact ⟨spells_mark hmark, longest_mark hmark⟩
  next =>
    split at h
    next hat =>
      split at h
      · cases h
      next w ws hw =>
        cases h
        have hword : IsWord (w :: ws) := ⟨by simp, fun _ hd => List.mem_takeWhile_imp (hw ▸ hd)⟩
        subst hat
        exact ⟨.keyword hword, (longest_keyword_iff hword).mpr (head?_dropWhile _ cs)⟩
    next =>
      split at h
      next hdigit => exact of_lexNumber hdigit h
      next =>
        split at h
        next hstart =>
          cases h
          have hname : IsName (c :: cs.takeWhile isNameChar) := .mk hstart fun _ => List.mem_takeWhile_imp
          exact ⟨.ident hname, (longest_name_iff hname).mpr (head?_dropWhile _ cs)⟩
        next => cases h

theorem lexNumber_of {text rest : List Char} {q : ℚ} {value : Float} (h : IsNumeral text q)
    (hvalue : RoundsTo q value) (hlongest : Longest text rest) (hpoint : IsDigits text → '.' ∉ rest.head?) :
    lexNumber (text ++ rest) = .ok ⟨.number value, text, rest⟩ := by
  unfold lexNumber
  cases h with
  | whole hw =>
    have hpoint := hpoint hw
    have hstop := (longest_whole_iff hw hpoint).mp hlongest
    rw [takeWhile_run hw.2 hstop, dropWhile_run hw.2 hstop]
    split
    next rest' => exact absurd rfl hpoint
    next => exact numberLexeme_eq_ok_iff.mpr ⟨value, hvalue, rfl⟩
  | @point whole fraction hw hf =>
    have hstop := (longest_point_iff hw hf).mp hlongest
    have hdot : ∀ c ∈ ('.' :: (fraction ++ rest)).head?, c.isDigit = false := by simp
    rw [List.append_assoc, List.cons_append, takeWhile_run hw.2 hdot, dropWhile_run hw.2 hdot]
    obtain ⟨d, ds, rfl⟩ := List.exists_cons_of_ne_nil hf.1
    simp only [takeWhile_run hf.2 hstop, dropWhile_run hf.2 hstop]
    exact numberLexeme_eq_ok_iff.mpr ⟨value, hvalue, rfl⟩

/-- The longest lexeme is read, unless it is digits and a point follows. -/
theorem lexeme_of {c : Char} {cs text rest : List Char} {kind : TokenKind} (h : Spells text kind)
    (hlongest : Longest text rest) (hpoint : IsDigits text → '.' ∉ rest.head?) (hcs : text ++ rest = c :: cs) :
    lexeme c cs = .ok ⟨kind, text, rest⟩ := by
  unfold lexeme
  cases h with
  | @keyword word hword =>
    have hstop := (longest_keyword_iff hword).mp hlongest
    obtain ⟨w, ws, rfl⟩ := List.exists_cons_of_ne_nil hword.1
    rw [List.cons_append, List.cons.injEq] at hcs
    obtain ⟨rfl, rfl⟩ := hcs
    rw [mark?_eq_none (.inr (.inr rfl))]
    simp only [if_true, takeWhile_run hword.2 hstop, dropWhile_run hword.2 hstop]
  | ident hname =>
    have hstop := (longest_name_iff hname).mp hlongest
    obtain @⟨d, ds, hstart, hall⟩ := hname
    rw [List.cons_append, List.cons.injEq] at hcs
    obtain ⟨rfl, rfl⟩ := hcs
    have hat : d ≠ '@' := by
      rintro rfl
      exact absurd hstart (by decide)
    rw [mark?_eq_none (.inl hstart)]
    simp only [if_neg hat, not_isDigit_of_isNameStart hstart, Bool.false_eq_true, if_false, hstart, if_true,
      takeWhile_run hall hstop, dropWhile_run hall hstop]
  | number hnumeral hvalue =>
    have hread := lexNumber_of hnumeral hvalue hlongest hpoint
    obtain ⟨d, ds, rfl, hdigit⟩ := hnumeral.exists_cons
    rw [List.cons_append, List.cons.injEq] at hcs
    obtain ⟨rfl, rfl⟩ := hcs
    have hat : d ≠ '@' := by
      rintro rfl
      exact absurd hdigit (by decide)
    rw [mark?_eq_none (.inr (.inl hdigit))]
    simp only [if_neg hat, hdigit, if_true]
    exact hread
  | openBrace | closeBrace | colon | semicolon | comma =>
    rw [List.cons_append, List.cons.injEq] at hcs
    obtain ⟨rfl, rfl⟩ := hcs
    rfl

/-! ### Blanks and comments -/

/-- Neither a blank nor a comment begins here. -/
def IsClear : List Char → Prop
  | [] => True
  | c :: cs => isBlank c = false ∧ opensComment c cs = false

theorem skipTrivia_of_isClear (p : Position) {rest : List Char} (h : IsClear rest) :
    skipTrivia false p rest = (p, rest) := by
  cases rest with
  | nil => rfl
  | cons c cs => simp [skipTrivia, h.1, h.2]

theorem skipTrivia_comment (p : Position) {body tail : List Char} (hbody : '\n' ∉ body)
    (htail : ∀ c ∈ tail.head?, c = '\n') :
    skipTrivia true p (body ++ tail) = skipTrivia false (p.advance body) tail := by
  induction body generalizing p with
  | nil =>
    cases tail with
    | nil => rfl
    | cons c tail =>
      obtain rfl := htail c rfl
      rfl
  | cons c body ih =>
    simp only [List.mem_cons, not_or] at hbody
    rw [List.cons_append, skipTrivia, if_pos rfl, bne_iff_ne.mpr (Ne.symm hbody.1), ih _ hbody.2,
      Position.advance_cons]

theorem skipTrivia_opening (p : Position) {opening body tail : List Char} (hopening : opening ∈ [['#'], ['/', '/']])
    (hbody : '\n' ∉ body) (htail : ∀ c ∈ tail.head?, c = '\n') :
    skipTrivia false p (opening ++ body ++ tail) = skipTrivia false (p.advance (opening ++ body)) tail := by
  simp only [List.mem_cons, List.not_mem_nil, or_false] at hopening
  rcases hopening with rfl | rfl
  · exact skipTrivia_comment (p.step '#') hbody htail
  · have hbody : '\n' ∉ '/' :: body := by simpa using hbody
    exact skipTrivia_comment (p.step '/') hbody htail

/-- All blanks and comments are skipped. -/
theorem skipTrivia_of (p : Position) {gap rest : List Char} (h : IsTrivia rest gap) (hrest : IsClear rest) :
    skipTrivia false p (gap ++ rest) = (p.advance gap, rest) := by
  induction h generalizing p with
  | nil => exact skipTrivia_of_isClear p hrest
  | blank hc _ ih => simp [skipTrivia, hc, ih]
  | comment hopening hbody htail _ ih =>
    rw [List.append_assoc, skipTrivia_opening p hopening hbody htail, ih, ← Position.advance_append]

/-- Of what comes next, only the first character matters. -/
theorem IsTrivia.of_head? {rest rest' gap : List Char} (h : IsTrivia rest gap)
    (hhead : ∀ c ∈ rest'.head?, c ∈ rest.head?) : IsTrivia rest' gap := by
  induction h with
  | nil => exact .nil
  | blank hc _ ih => exact .blank hc ih
  | @comment opening body gap hopening hbody hstop _ ih =>
    refine .comment hopening hbody (fun c hc => hstop c ?_) ih
    cases gap with
    | nil => exact hhead c hc
    | cons d gap => exact hc

/-- What is skipped from inside a comment. -/
def IsTriviaFromComment (rest gap : List Char) : Prop :=
  ∃ body more, gap = body ++ more ∧ '\n' ∉ body ∧ (∀ c ∈ (more ++ rest).head?, c = '\n') ∧ IsTrivia rest more

theorem IsTriviaFromComment.cons {c : Char} {rest gap : List Char} (hc : c ≠ '\n')
    (h : IsTriviaFromComment rest gap) : IsTriviaFromComment rest (c :: gap) := by
  obtain ⟨body, more, rfl, hbody, hmore, htrivia⟩ := h
  exact ⟨c :: body, more, rfl, by simpa using ⟨Ne.symm hc, hbody⟩, hmore, htrivia⟩

/-- A comment is what opens it and what is skipped from inside it. -/
theorem IsTriviaFromComment.isTrivia {c : Char} {rest gap : List Char} (hc : opensComment c (gap ++ rest) = true)
    (h : IsTriviaFromComment rest gap) : IsTrivia rest (c :: gap) := by
  obtain ⟨body, more, rfl, hbody, hmore, htrivia⟩ := h
  simp only [opensComment, Bool.or_eq_true, Bool.and_eq_true, decide_eq_true_eq] at hc
  rcases hc with rfl | ⟨rfl, hslash⟩
  · exact @IsTrivia.comment rest ['#'] body more (by simp) hbody hmore htrivia
  · cases body with
    | nil => exact absurd (hmore '/' hslash) (by decide)
    | cons d body =>
      obtain rfl : d = '/' := by simpa using hslash
      exact @IsTrivia.comment rest ['/', '/'] body more (by simp) (by simpa using hbody) hmore htrivia

/-- Only blanks and comments are skipped. -/
theorem of_skipTrivia (b : Bool) (p : Position) (cs : List Char) :
    ∃ gap rest, cs = gap ++ rest ∧ skipTrivia b p cs = (p.advance gap, rest) ∧ IsClear rest ∧
      if b then IsTriviaFromComment rest gap else IsTrivia rest gap := by
  induction cs generalizing b p with
  | nil =>
    refine ⟨[], [], rfl, rfl, trivial, ?_⟩
    cases b with
    | false => exact .nil
    | true => exact ⟨[], [], rfl, by simp, by simp, .nil⟩
  | cons c cs ih =>
    unfold skipTrivia
    cases b with
    | true =>
      by_cases hc : c = '\n'
      · obtain ⟨gap, rest, rfl, hskip, hrest, hgap⟩ := ih false (p.step c)
        refine ⟨c :: gap, rest, rfl, by simpa [hc] using hskip, hrest, [], c :: gap, rfl, by simp, by simp [hc], ?_⟩
        exact .blank (by rw [hc]; decide) hgap
      · obtain ⟨gap, rest, rfl, hskip, hrest, hgap⟩ := ih true (p.step c)
        exact ⟨c :: gap, rest, rfl, by simpa [bne_iff_ne.mpr hc] using hskip, hrest, hgap.cons hc⟩
    | false =>
      by_cases hblank : isBlank c = true
      · obtain ⟨gap, rest, rfl, hskip, hrest, hgap⟩ := ih false (p.step c)
        exact ⟨c :: gap, rest, rfl, by simpa [hblank] using hskip, hrest, .blank hblank hgap⟩
      · by_cases hopens : opensComment c cs = true
        · obtain ⟨gap, rest, rfl, hskip, hrest, hgap⟩ := ih true (p.step c)
          exact ⟨c :: gap, rest, rfl, by simpa [hblank, hopens] using hskip, hrest, hgap.isTrivia hopens⟩
        · rw [Bool.not_eq_true] at hblank hopens
          exact ⟨[], c :: cs, rfl, by simp [hblank, hopens], ⟨hblank, hopens⟩, .nil⟩

/-! ### Places -/

theorem advance_start (cs : List Char) : Position.start.advance cs = placeAfter cs := by
  induction cs using List.reverseRecOn with
  | nil => rfl
  | append_singleton cs c ih =>
    have hbytes : (String.ofList (cs ++ [c])).utf8ByteSize = (String.ofList cs).utf8ByteSize + c.utf8Size := by
      rw [String.ofList_append, String.utf8ByteSize_append]
      simp
    rw [Position.advance_append, ih, Position.advance_cons, Position.advance_nil]
    unfold placeAfter Position.step
    rw [hbytes]
    by_cases hc : c = '\n'
    · simp [hc, Nat.add_assoc]
    · simp [hc, Nat.add_assoc]

/-! ### The whole text -/

theorem bounds_of_isNameStart {c : Char} (h : isNameStart c = true ∨ c.isDigit = true) :
    48 ≤ c.toNat ∧ c.toNat ≤ 122 := by
  rcases h with h | h
  · rw [isNameStart_iff] at h
    omega
  · have hdigit : 48 ≤ c.toNat ∧ c.toNat ≤ 57 := Char.isDigit_iff_toNat.mp h
    omega

theorem not_isBlank_of_bounds {c : Char} (h : 48 ≤ c.toNat ∧ c.toNat ≤ 122) : isBlank c = false := by
  simp [isBlank, blankRanges]
  omega

theorem IsLexeme.exists_start {text : List Char} (h : IsLexeme text) :
    ∃ c cs, text = c :: cs ∧ isBlank c = false ∧ c ≠ '#' ∧ c ≠ '/' ∧ c ≠ '.' := by
  have hbounds {c : Char} (h : 48 ≤ c.toNat ∧ c.toNat ≤ 122) :
      isBlank c = false ∧ c ≠ '#' ∧ c ≠ '/' ∧ c ≠ '.' := by
    refine ⟨not_isBlank_of_bounds h, ?_, ?_, ?_⟩ <;> rintro rfl <;> exact absurd h (by decide)
  cases h with
  | keyword => exact ⟨_, _, rfl, by decide⟩
  | name h =>
    obtain ⟨h, -⟩ := h
    exact ⟨_, _, rfl, hbounds (bounds_of_isNameStart (.inl h))⟩
  | number h =>
    obtain ⟨d, ds, rfl, hd⟩ := h.exists_cons
    exact ⟨_, _, rfl, hbounds (bounds_of_isNameStart (.inr hd))⟩
  | mark h =>
    simp only [List.mem_cons, List.not_mem_nil, or_false] at h
    rcases h with rfl | rfl | rfl | rfl | rfl <;> exact ⟨_, _, rfl, by decide⟩

theorem Spells.isLexeme {text : List Char} {kind : TokenKind} (h : Spells text kind) : IsLexeme text := by
  cases h with
  | keyword h => exact .keyword h
  | ident h => exact .name h
  | number h => exact .number h
  | openBrace | closeBrace | colon | semicolon | comma => exact .mark (by simp)

theorem IsLexeme.isClear {text : List Char} (h : IsLexeme text) (rest : List Char) : IsClear (text ++ rest) := by
  obtain ⟨c, cs, rfl, hblank, hsharp, hslash, -⟩ := h.exists_start
  exact ⟨hblank, by simp [opensComment, hsharp, hslash]⟩

/-- No blank, comment or lexeme begins with a point. -/
theorem Splits.head?_ne_point {before cs : List Char} {tokens : List Token} (h : Splits before cs tokens) :
    '.' ∉ cs.head? := by
  have htrivia {gap rest : List Char} (h : IsTrivia rest gap) : '.' ∉ gap.head? := by
    cases h with
    | nil => simp
    | blank hc =>
      rintro ⟨⟩
      exact absurd hc (by decide)
    | comment hopening =>
      simp only [List.mem_cons, List.not_mem_nil, or_false] at hopening
      rcases hopening with rfl | rfl <;> simp
  cases h with
  | stop hgap => exact htrivia hgap
  | @token _ gap text rest _ _ hgap hspells =>
    obtain ⟨c, cs, rfl, -, -, -, hc⟩ := hspells.isLexeme.exists_start
    have hgap := htrivia hgap
    cases gap with
    | nil => simpa using hc
    | cons d gap => exact hgap

theorem advance_placeAfter (before text : List Char) :
    (placeAfter before).advance text = placeAfter (before ++ text) := by
  rw [← advance_start, ← Position.advance_append, advance_start]

theorem between_placeAfter (before text : List Char) :
    .between (placeAfter before) ((placeAfter before).advance text) = spanOf before text := by
  rw [advance_placeAfter]
  rfl

end Lexical

open Lexical

/-- What the lexer says is a way to cut the text. -/
theorem splits_of_lexFrom {done : Array Token} {p : Position} {cs : List Char} {ts : Tokens} {before : List Char}
    (hp : p = placeAfter before) (h : lexFrom done p cs = .ok ts) :
    ∃ tokens, Splits before cs tokens ∧ ts = ⟨done.toList ++ tokens, placeAfter (before ++ cs)⟩ := by
  fun_induction lexFrom done p cs generalizing before with
  | case1 done p cs q hskip =>
    cases h
    obtain ⟨gap, rest, rfl, hgap, -, htrivia⟩ := of_skipTrivia false p cs
    cases hskip.symm.trans hgap
    rw [hp, List.append_nil, advance_placeAfter]
    exact ⟨[], .stop htrivia, by simp⟩
  | case2 done p cs q c rest hskip fault hl => cases h
  | case3 done p cs q c rest hskip l hl _ ih =>
    obtain ⟨gap, rest', rfl, hgap, -, htrivia⟩ := of_skipTrivia false p cs
    cases hskip.symm.trans hgap
    obtain ⟨hspells, hlongest⟩ := of_lexeme hl
    rw [hp, advance_placeAfter, between_placeAfter, advance_placeAfter] at h ih
    obtain ⟨tokens, hsplits, rfl⟩ := ih rfl h
    rw [← append_of_lexeme hl] at htrivia ⊢
    refine ⟨⟨l.kind, spanOf (before ++ gap) l.text⟩ :: tokens, ?_, ?_⟩
    · rw [← List.append_assoc]
      exact .token htrivia hspells hlongest hsplits
    · simp

/-- A way to cut the text is what the lexer says. -/
theorem lexFrom_of_splits {before cs : List Char} {tokens : List Token} (h : Splits before cs tokens)
    (done : Array Token) :
    lexFrom done (placeAfter before) cs = .ok ⟨done.toList ++ tokens, placeAfter (before ++ cs)⟩ := by
  induction h generalizing done with
  | @stop before gap hgap =>
    have hskip := skipTrivia_of (placeAfter before) hgap trivial
    rw [List.append_nil, advance_placeAfter] at hskip
    rw [lexFrom]
    split
    next q heq =>
      cases hskip.symm.trans heq
      simp
    next heq => cases hskip.symm.trans heq
  | @token before gap text rest kind tokens hgap hspells hlongest hsplits ih =>
    have hskip := skipTrivia_of (placeAfter before) hgap (hspells.isLexeme.isClear rest)
    rw [advance_placeAfter, ← List.append_assoc] at hskip
    obtain ⟨c, cs, htext, -⟩ := hspells.isLexeme.exists_start
    rw [lexFrom]
    split
    next q heq =>
      rw [hskip, htext] at heq
      cases heq
    next q c' cs' heq =>
      obtain ⟨rfl, htail⟩ := Prod.mk.inj (hskip.symm.trans heq)
      have hread := lexeme_of hspells hlongest (fun _ => hsplits.head?_ne_point) htail
      split
      next fault hfault => cases hread.symm.trans hfault
      next l hl =>
        cases hread.symm.trans hl
        rw [between_placeAfter, advance_placeAfter, ih]
        simp

/-! ### Order of the tokens -/

theorem offset_append (before text : List Char) :
    (placeAfter (before ++ text)).offset = (placeAfter before).offset + (String.ofList text).utf8ByteSize := by
  unfold placeAfter
  rw [String.ofList_append, String.utf8ByteSize_append]

theorem utf8ByteSize_pos {text : List Char} (h : text ≠ []) : 0 < (String.ofList text).utf8ByteSize := by
  obtain ⟨c, cs, rfl⟩ := List.exists_cons_of_ne_nil h
  have hc : 0 < c.utf8Size := c.utf8Size_pos
  simp
  omega

/-- The stretches of the tokens are in the text, one after another. -/
theorem Lexical.Splits.bounds {before cs : List Char} {tokens : List Token} (h : Splits before cs tokens) :
    (∀ t ∈ tokens, (placeAfter before).offset ≤ t.span.start ∧ t.span.start < t.span.stop ∧
      t.span.stop ≤ (placeAfter (before ++ cs)).offset) ∧
    tokens.Pairwise (fun t u => t.span.stop ≤ u.span.start) := by
  induction h with
  | stop => simp
  | @token before gap text rest kind tokens _ hspells _ _ ih =>
    obtain ⟨c, cs, htext, -⟩ := hspells.isLexeme.exists_start
    have hpos := utf8ByteSize_pos (htext ▸ List.cons_ne_nil c cs)
    obtain ⟨hbounds, hpairwise⟩ := ih
    rw [← List.append_assoc, ← List.append_assoc]
    simp only [offset_append] at hbounds ⊢
    constructor
    · intro t ht
      rcases List.mem_cons.mp ht with rfl | ht
      · simp only [spanOf, offset_append]
        omega
      · have hlater := hbounds t ht
        omega
    · refine List.pairwise_cons.mpr ⟨fun t ht => ?_, hpairwise⟩
      simp only [spanOf, offset_append]
      exact (hbounds t ht).1

theorem lex_eq_ok_iff {source : String} {ts : Tokens} : lex source = .ok ts ↔ IsSplit source ts := by
  unfold lex
  constructor
  · intro h
    obtain ⟨tokens, hsplits, rfl⟩ := @splits_of_lexFrom _ _ _ _ [] rfl h
    exact ⟨hsplits, rfl⟩
  · rintro ⟨hsplits, hstop⟩
    obtain ⟨tokens, stop⟩ := ts
    obtain rfl := hstop
    exact lexFrom_of_splits hsplits #[]

theorem tokenize_eq_ok {source : String} {ts : Tokens} : tokenize source = .ok ts ↔ lex source = .ok ts := by
  unfold tokenize
  cases lex source with
  | ok us => simp
  | error e => simp

theorem Lexical.Splits.exists_spells {before cs : List Char} {tokens : List Token} (h : Splits before cs tokens)
    {t : Token} (ht : t ∈ tokens) : ∃ text, Spells text t.kind := by
  induction h with
  | stop => cases ht
  | @token _ _ text _ _ _ _ hspells _ _ ih =>
    rcases List.mem_cons.mp ht with rfl | ht
    · exact ⟨text, hspells⟩
    · exact ih ht

/-- The numbers of a text are finite and have no sign. -/
theorem isMagnitude_of_tokenize {source : String} {ts : Tokens} (h : tokenize source = .ok ts) {t : Token}
    (ht : t ∈ ts.list) {value : Float} (hvalue : t.kind = .number value) : IsMagnitude value := by
  obtain ⟨text, hspells⟩ := (lex_eq_ok_iff.mp (tokenize_eq_ok.mp h)).tokens.exists_spells ht
  rw [hvalue] at hspells
  cases hspells with
  | number _ hrounds => exact hrounds.magnitude

/-- **The lexer cuts a text into the tokens of the lexical grammar.** It has an answer if and only if the
text can be cut, and there is one way to cut it. The tokens then stand one after another within the
bytes of the text, none is empty, and the end is after the last byte. -/
theorem tokenize_eq_ok_iff (source : String) (ts : Tokens) :
    (tokenize source = .ok ts ↔ IsSplit source ts) ∧
    (IsSplit source ts →
      (∀ us, IsSplit source us → us = ts) ∧
      ts.list.Pairwise (fun t u => t.span.stop ≤ u.span.start) ∧
      (∀ t ∈ ts.list, t.span.start < t.span.stop ∧ t.span.stop ≤ source.utf8ByteSize) ∧
      ts.stop.offset = source.utf8ByteSize) := by
  refine ⟨tokenize_eq_ok.trans lex_eq_ok_iff, fun h => ?_⟩
  have hend : (placeAfter source.toList).offset = source.utf8ByteSize := by simp [placeAfter]
  obtain ⟨hbounds, hpairwise⟩ := h.tokens.bounds
  refine ⟨fun us hus => ?_, hpairwise, fun t ht => ⟨(hbounds t ht).2.1, ?_⟩, by rw [h.stop, hend]⟩
  · exact Except.ok.inj ((lex_eq_ok_iff.mpr hus).symm.trans (lex_eq_ok_iff.mpr h))
  · rw [← hend]
    exact (hbounds t ht).2.2

/-- A text of two lines, with a comment that has more bytes than characters. -/
def twoLines : String := "@pose // é\n a1 2.50;"

/-- The tokens of `twoLines`. -/
def twoLinesTokens : Tokens where
  list := [⟨.keyword "pose", ⟨0, 5, 1, 1⟩⟩, ⟨.ident "a1", ⟨13, 15, 2, 2⟩⟩, ⟨.number 2.5, ⟨16, 20, 2, 5⟩⟩,
    ⟨.semicolon, ⟨20, 21, 2, 9⟩⟩]
  stop := ⟨21, 2, 10⟩

theorem isSplit_twoLines : IsSplit twoLines twoLinesTokens ∧ ∀ us, IsSplit twoLines us → us = twoLinesTokens := by
  have h := (tokenize_eq_ok_iff twoLines twoLinesTokens).1.mp (by decide +kernel)
  exact ⟨h, ((tokenize_eq_ok_iff twoLines twoLinesTokens).2 h).1⟩

end PoseLang
